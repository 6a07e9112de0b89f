/-
This file runs a parser from two cursors over the same tokens. A parser looks ahead by at most one
token when the second run does what the first one does, provided that the first one stops before
the same token, with the same token behind it.
-/

import FrontEnd.Proofs.Parser.Course
import FrontEnd.Proofs.Parser.Bounds

namespace FrontEnd

/-- Tokens agree from one place to another when they are the same from the first to the second
place and, unless an end marker stands there, one place further. -/
structure AgreeBetween (start stop : Nat) (tokens tokens' : List Token) : Prop where
  within : ∀ index, start ≤ index → index ≤ stop → tokens'[index]? = tokens[index]?
  behind : tokens[stop]?.any (! ·.isEof) → tokens'[stop + 1]? = tokens[stop + 1]?

namespace TokenCursor

variable {cursor middle next last other last' : TokenCursor} {token : Token}
variable {tokens taken more : List Token}

/-- The token behind the current one is the current one after a step. -/
theorem following_of_step? (stepped : cursor.step? = some (token, next)) :
    cursor.following = next.current := by
  obtain ⟨rest, left, -, rfl⟩ := step?_eq_some.1 stepped
  rw [following, left]
  rfl

/-- A current token that is no end marker can be taken. -/
theorem exists_step? (ended : cursor.marker.kind = .eof) (goesOn : cursor.current.isEof = false) :
    ∃ next, cursor.step? = some (cursor.current, next) := by
  obtain ⟨passed, rest, marker⟩ := cursor
  cases rest with
  | nil => exact absurd ended (by simpa [current, Token.isEof] using goesOn)
  | cons first rest => exact ⟨_, step?_eq_some.2 ⟨rest, rfl, goesOn, rfl⟩⟩

/-- More tokens follow unless the current one is a marker. -/
theorem hasNext_eq (ended : cursor.marker.kind = .eof) :
    cursor.hasNext = !cursor.current.isEof := by
  cases goesOn : cursor.current.isEof with
  | false =>
      obtain ⟨next, stepped⟩ := exists_step? ended goesOn
      rw [hasNext, stepped]
      rfl
  | true =>
      cases stepped : cursor.step? with
      | none =>
          rw [hasNext, stepped]
          rfl
      | some step =>
          obtain ⟨-, -, -, same, goesOn'⟩ := step?_sound stepped
          rw [← same, goesOn] at goesOn'
          cases goesOn'

/-- A cursor walks over some tokens, none of which is an end marker, to the place behind them. -/
inductive Walks : TokenCursor → List Token → TokenCursor → Prop
  | done (cursor : TokenCursor) : Walks cursor [] cursor
  | step {cursor next last : TokenCursor} {token : Token} {taken : List Token}
      (stepped : cursor.step? = some (token, next)) (later : Walks next taken last) :
      Walks cursor (token :: taken) last

/-- Walks over tokens after each other are one walk over all of them. -/
theorem Walks.append (first : cursor.Walks taken middle) (second : middle.Walks more last) :
    cursor.Walks (taken ++ more) last := by
  induction first with
  | done => exact second
  | step stepped _ inductionHypothesis => exact .step stepped (inductionHypothesis second)

/-- A walk over some tokens can be interrupted anywhere. -/
theorem Walks.split (walks : cursor.Walks (taken ++ more) last) :
    ∃ middle, cursor.Walks taken middle ∧ middle.Walks more last := by
  induction taken generalizing cursor with
  | nil => exact ⟨cursor, .done cursor, walks⟩
  | cons token taken inductionHypothesis =>
      cases walks with
      | step stepped later =>
          obtain ⟨middle, first, second⟩ := inductionHypothesis later
          exact ⟨middle, .step stepped first, second⟩

/-- A walk leads forward. -/
theorem Walks.reaches (walks : cursor.Walks taken last) : cursor.Reaches last := by
  induction walks with
  | done => exact .refl
  | step stepped _ inductionHypothesis => exact .head ⟨_, stepped⟩ inductionHypothesis

/-- Two cursors show the same when their current tokens are the same and, unless it is an end
marker, so are the tokens after it. -/
structure ShowsSame (cursor other : TokenCursor) : Prop where
  current : other.current = cursor.current
  following : cursor.current.isEof = false → other.following = cursor.following

/-- Cursors that walk over the same tokens to places that show the same do so all the way. -/
theorem Walks.showsSame (walks : cursor.Walks taken last) (walks' : other.Walks taken last')
    (shows : last.ShowsSame last') : cursor.ShowsSame other := by
  induction walks generalizing other with
  | done =>
      cases walks' with
      | done => exact shows
  | step stepped _ inductionHypothesis =>
      cases walks' with
      | step stepped' later =>
          have ahead := inductionHypothesis later shows
          refine ⟨?_, fun _ => ?_⟩
          · rw [(step?_sound stepped).2.2.2.1, (step?_sound stepped').2.2.2.1]
          · rw [following_of_step? stepped, following_of_step? stepped', ahead.current]

theorem getElem?_position (cursor : TokenCursor) :
    cursor.tokens[cursor.position]? = some cursor.current :=
  peekAt?_current cursor

theorem getElem?_following (ended : cursor.marker.kind = .eof)
    (goesOn : cursor.current.isEof = false) :
    cursor.tokens[cursor.position + 1]? = some cursor.following :=
  peekAt?_following (by rw [hasNext_eq ended, goesOn]; rfl)

/-- The marker of a cursor over the tokens of a parse is the last of them. -/
theorem marker_kind (kept : cursor.tokens = withMarker tokens) : cursor.marker.kind = .eof := by
  have ended := (sound_ofTokens tokens).ended
  rw [← kept, TokenCursor.tokens, List.getLast?_concat] at ended
  simpa [Token.isEof] using ended

/-- Where the tokens agree, the current ones are the same. -/
theorem current_of_agree {stop : Nat} (place : other.position = cursor.position)
    (within : cursor.position ≤ stop)
    (agree : AgreeBetween cursor.position stop cursor.tokens other.tokens) :
    other.current = cursor.current := by
  have shown := agree.within cursor.position le_rfl within
  rw [getElem?_position, ← place, getElem?_position] at shown
  exact Option.some.inj shown

/-- Over tokens that agree, a cursor in the same place can walk over the same tokens. -/
theorem Walks.along (walks : cursor.Walks taken last) (ended : cursor.marker.kind = .eof)
    (ended' : other.marker.kind = .eof) (place : other.position = cursor.position)
    (agree : AgreeBetween cursor.position last.position cursor.tokens other.tokens) :
    ∃ last', other.Walks taken last' ∧ last.ShowsSame last' ∧ last'.position = last.position := by
  induction walks generalizing other with
  | done cursor =>
      have current := current_of_agree place le_rfl agree
      refine ⟨other, .done other, ⟨current, fun goesOn => ?_⟩, place⟩
      have shown := agree.behind (by rw [getElem?_position]; simpa using goesOn)
      rw [getElem?_following ended goesOn, ← place,
        getElem?_following ended' (current ▸ goesOn)] at shown
      exact Option.some.inj shown
  | @step cursor next last token taken stepped later inductionHypothesis =>
      obtain ⟨kept, moved, -, current, goesOn⟩ := step?_sound stepped
      have within := (Walks.step stepped later).reaches.position_le
      have same : other.current = token := (current_of_agree place within agree).trans current
      obtain ⟨next', stepped'⟩ := exists_step? ended' (by rw [same]; simpa using goesOn)
      obtain ⟨kept', moved', -, -, -⟩ := step?_sound stepped'
      rw [same] at stepped'
      have agreeLater : AgreeBetween next.position last.position next.tokens next'.tokens := by
        rw [kept, kept', moved]
        exact ⟨fun index after => agree.within index (by omega), agree.behind⟩
      obtain ⟨last', walks', shows, stops⟩ := inductionHypothesis
        (by rw [marker_of_step? stepped, ended]) (by rw [marker_of_step? stepped', ended'])
        (by rw [moved, moved', place]) agreeLater
      exact ⟨last', .step stepped' walks', shows, stops⟩

end TokenCursor

namespace Parser

variable {σ ρ α β : Type}

/-- To eat a wanted token is to check for it and to take it. -/
theorem eatWhere_bind (wanted : Token → Bool) (rest : Option Token → Parser σ ρ β) :
    eatWhere wanted >>= rest = checkWhere wanted >>= fun fits =>
      if fits then Parser.advance >>= fun token => rest (some token) else rest none := by
  funext state
  have checked : (checkWhere wanted : Parser σ ρ Bool) state =
      .ok (state.cursor.hasNext && wanted state.cursor.current) state := rfl
  rw [bind_ok checked]
  cases stepped : state.cursor.step? with
  | none =>
      have missed : (eatWhere wanted : Parser σ ρ (Option Token)) state = .ok none state :=
        eatWhere_missed fun token next taken => by simp [stepped] at taken
      have stops : state.cursor.hasNext = false := by rw [TokenCursor.hasNext, stepped]; rfl
      rw [bind_ok missed, stops]
      rfl
  | some step =>
      obtain ⟨token, behind⟩ := step
      have goesOn : state.cursor.hasNext = true := by rw [TokenCursor.hasNext, stepped]; rfl
      rw [goesOn, TokenCursor.current_of_step? stepped, Bool.true_and]
      cases fits : wanted token with
      | false =>
          have missed : (eatWhere wanted : Parser σ ρ (Option Token)) state = .ok none state :=
            eatWhere_missed fun other next taken => by
              rw [stepped] at taken
              cases taken
              simp [fits]
          exact bind_ok missed
      | true =>
          rw [bind_ok (eatWhere_of_step? stepped fits), if_pos rfl,
            bind_ok (advance_of_step? stepped)]

variable [Receiver ρ] {bound : Nat}

/-- A parser looks ahead by at most one token behind the place where it stops. From any other
cursor that walks over the tokens it took to a place that shows the same, it gives the same value
with the same reports, and stops there. -/
def LooksAhead (bound : Nat) (parser : Parser σ ρ α) : Prop :=
  ∀ (state next : State σ ρ) (value : α), state.cursor.marker.kind = .eof →
    state.cursor.remaining ≤ bound → parser state = .ok value next →
      ∃ taken added, state.cursor.Walks taken next.cursor ∧
        Receiver.acceptAll? state.sink added = some next.sink ∧
        ∀ (other : State σ ρ) (last : TokenCursor) (sink : ρ),
          other.cursor.marker.kind = .eof → other.cursor.remaining ≤ bound →
          other.cursor.Walks taken last → next.cursor.ShowsSame last →
          Receiver.acceptAll? other.sink added = some sink →
            ∃ next', parser other = .ok value next' ∧ next'.cursor = last ∧ next'.sink = sink

section Combining

variable {parser parser' : Parser σ ρ α} {rest : α → Parser σ ρ β}

/-- What looks ahead with many tokens left does with fewer. -/
theorem LooksAhead.mono {less : Nat} (looks : LooksAhead bound parser) (within : less ≤ bound) :
    LooksAhead less parser := by
  intro state next value ended few ran
  obtain ⟨taken, added, walks, accepts, replays⟩ :=
    looks state next value ended (few.trans within) ran
  exact ⟨taken, added, walks, accepts, fun other last sink ended' few' =>
    replays other last sink ended' (few'.trans within)⟩

/-- Parsers that agree look ahead alike. -/
theorem LooksAhead.ofAgree (looks : LooksAhead bound parser')
    (agree : AgreeWithin bound parser parser') : LooksAhead bound parser := by
  intro state next value ended few ran
  rw [agree state ended few] at ran
  obtain ⟨taken, added, walks, accepts, replays⟩ := looks state next value ended few ran
  refine ⟨taken, added, walks, accepts, fun other last sink ended' few' => ?_⟩
  rw [agree other ended' few']
  exact replays other last sink ended' few'

/-- The rest of a sequence looks ahead from where its first part stops. -/
theorem LooksAhead.bind (looks : LooksAhead bound parser)
    (looksRest : ∀ value, LooksAhead bound (rest value)) : LooksAhead bound (parser >>= rest) := by
  intro state next value ended few ran
  obtain ⟨found, between, ranFirst, ranRest⟩ := bind_eq_ok.1 ran
  obtain ⟨taken, added, walks, accepts, replays⟩ := looks state between found ended few ranFirst
  obtain ⟨taken', added', walks', accepts', replays'⟩ :=
    looksRest found between next value (walks.reaches.marker ▸ ended)
      (walks.reaches.remaining_le.trans few) ranRest
  refine ⟨taken ++ taken', added ++ added', walks.append walks', ?_, ?_⟩
  · rw [Receiver.acceptAll?_append, accepts]
    exact accepts'
  · intro other last sink endedOther fewOther walksOther shows accepted
    obtain ⟨middle, walksFirst, walksRest⟩ := walksOther.split
    rw [Receiver.acceptAll?_append] at accepted
    obtain ⟨sinkBetween, acceptedFirst, acceptedRest⟩ := Option.bind_eq_some_iff.1 accepted
    obtain ⟨between', ranFirst', rfl, rfl⟩ := replays other middle sinkBetween endedOther fewOther
      walksFirst (walks'.showsSame walksRest shows) acceptedFirst
    obtain ⟨next', ranRest', stops, holds⟩ := replays' between' last sink
      (walksFirst.reaches.marker ▸ endedOther) (walksFirst.reaches.remaining_le.trans fewOther)
      walksRest shows acceptedRest
    exact ⟨next', by rw [bind_ok ranFirst', ranRest'], stops, holds⟩

/-- A step that leaves the cursor and the receiver alone sees nothing. -/
theorem looksAhead_still {value : α} (still : ∀ state : State σ ρ, ∃ next,
    parser state = .ok value next ∧ next.cursor = state.cursor ∧ next.sink = state.sink) :
    LooksAhead bound parser := by
  intro state next value' _ _ ran
  obtain ⟨next₀, ran₀, stays, keeps⟩ := still state
  obtain ⟨rfl, rfl⟩ : value = value' ∧ next₀ = next := by
    rw [ran₀] at ran
    exact EStateM.Result.ok.inj ran
  refine ⟨[], [], stays ▸ .done _, congrArg some keeps.symm, ?_⟩
  intro other last sink _ _ walks _ accepted
  obtain ⟨next', ran', stays', keeps'⟩ := still other
  cases walks with
  | done => exact ⟨next', ran', stays', keeps'.trans (Option.some.inj accepted)⟩

theorem looksAhead_pure (value : α) : LooksAhead bound (pure value : Parser σ ρ α) :=
  looksAhead_still fun state => ⟨state, rfl, rfl, rfl⟩

end Combining

section Steps

/-- A look at the cursor sees what all cursors that show the same let it see. -/
theorem LooksAhead.look (view : TokenCursor → α) {rest : α → Parser σ ρ β}
    (same : ∀ cursor other : TokenCursor, cursor.marker.kind = .eof → other.marker.kind = .eof →
      cursor.ShowsSame other → view other = view cursor)
    (looksRest : ∀ shown, LooksAhead bound (rest shown)) :
    LooksAhead bound ((fun state : State σ ρ => .ok (view state.cursor) state) >>= rest) := by
  intro state next value ended few ran
  obtain ⟨taken, added, walks, accepts, replays⟩ :=
    looksRest (view state.cursor) state next value ended few ran
  refine ⟨taken, added, walks, accepts, ?_⟩
  intro other last sink ended' few' walks' shows accepted
  have seen := same _ _ ended ended' (walks.showsSame walks' shows)
  obtain ⟨next', ran', stops, holds⟩ := replays other last sink ended' few' walks' shows accepted
  have looked : (fun state => .ok (view state.cursor) state : Parser σ ρ α) other =
      .ok (view state.cursor) other := by rw [← seen]
  exact ⟨next', (bind_ok looked).trans ran', stops, holds⟩

variable {rest : Token → Parser σ ρ β}

/-- The current token is the one that is looked at. -/
theorem LooksAhead.current (looksRest : ∀ token, LooksAhead bound (rest token)) :
    LooksAhead bound (Parser.current >>= rest) :=
  .look TokenCursor.current (fun _ _ _ _ shows => shows.current) looksRest

/-- Behind a token that is taken, fewer tokens remain. -/
theorem LooksAhead.advance (looksRest : ∀ token, LooksAhead (bound - 1) (rest token)) :
    LooksAhead bound (Parser.advance >>= rest) := by
  have ran_of_step {state : State σ ρ} {token : Token} {cursor : TokenCursor}
      (stepped : state.cursor.step? = some (token, cursor)) :
      (Parser.advance : Parser σ ρ Token) state = .ok token { state with cursor := cursor } := by
    rw [Parser.advance, stepped]
  have fewer {cursor next : TokenCursor} {token : Token}
      (stepped : cursor.step? = some (token, next)) (few : cursor.remaining ≤ bound) :
      next.remaining ≤ bound - 1 := by
    have left := (TokenCursor.step?_sound stepped).2.2.1
    omega
  have marker {cursor next : TokenCursor} {token : Token}
      (stepped : cursor.step? = some (token, next)) (ended : cursor.marker.kind = .eof) :
      next.marker.kind = .eof := by
    rw [TokenCursor.marker_of_step? stepped, ended]
  intro state next value ended few ran
  obtain ⟨token, between, ranFirst, ranRest⟩ := bind_eq_ok.1 ran
  cases stepped : state.cursor.step? with
  | none =>
      rw [Parser.advance, stepped] at ranFirst
      cases ranFirst
  | some step =>
      obtain ⟨token, behind⟩ := step
      rw [ran_of_step stepped] at ranFirst
      cases ranFirst
      obtain ⟨taken, added, walks, accepts, replays⟩ := looksRest token _ next value
        (marker stepped ended) (fewer stepped few) ranRest
      refine ⟨token :: taken, added, .step stepped walks, accepts, ?_⟩
      intro other last sink ended' few' walks' shows accepted
      cases walks' with
      | @step _ behind' _ _ _ stepped' later =>
          obtain ⟨next', ran', stops, holds⟩ := replays { other with cursor := behind' } last sink
            (marker stepped' ended') (fewer stepped' few') later shows accepted
          exact ⟨next', (bind_ok (ran_of_step stepped')).trans ran', stops, holds⟩

/-- Behind a token that was taken one token less remains. -/
theorem LooksAhead.eatWhere {wanted : Token → Bool} {rest : Option Token → Parser σ ρ β}
    (missed : LooksAhead bound (rest none))
    (took : ∀ token, LooksAhead (bound - 1) (rest (some token))) :
    LooksAhead bound (Parser.eatWhere wanted >>= rest) := by
  rw [eatWhere_bind]
  let view (cursor : TokenCursor) : Bool := cursor.hasNext && wanted cursor.current
  refine .look view (fun cursor other ended ended' shows => ?_) fun fits => ?_
  · simp only [view]
    rw [TokenCursor.hasNext_eq ended, TokenCursor.hasNext_eq ended', shows.current]
  · cases fits with
    | false => exact missed
    | true => exact .advance took

/-- What comes behind a token that is eaten looks ahead no less than what comes without it. -/
theorem LooksAhead.eat {wanted : Token → Bool} {rest : Option Token → Parser σ ρ β}
    (looksRest : ∀ found, LooksAhead bound (rest found)) :
    LooksAhead bound (Parser.eatWhere wanted >>= rest) :=
  .eatWhere (looksRest none) fun token => (looksRest (some token)).mono (Nat.pred_le bound)

/-- Whether an item follows is told by the current token. -/
theorem LooksAhead.beforeClose {close : Bracket} {rest : Bool → Parser σ ρ β}
    (looksRest : ∀ more, LooksAhead bound (rest more)) :
    LooksAhead bound (Parser.beforeClose close >>= rest) := by
  let view (cursor : TokenCursor) : Bool :=
    cursor.hasNext && cursor.current.kind != .bracket close
  refine .look view (fun cursor other ended ended' shows => ?_) looksRest
  simp only [view]
  rw [TokenCursor.hasNext_eq ended, TokenCursor.hasNext_eq ended', shows.current]

theorem looksAhead_note (event : Event) : LooksAhead bound (note event : Parser σ ρ Unit) :=
  looksAhead_still fun _ => ⟨_, rfl, rfl, rfl⟩

theorem looksAhead_make [Observer σ] (node : α → Node) (value : α) :
    LooksAhead bound (make node value : Parser σ ρ α) :=
  looksAhead_still fun _ => ⟨_, rfl, rfl, rfl⟩

/-- A report at the same place is answered alike, since the receiver is the same. -/
theorem looksAhead_report (diagnostic : Diagnostic) :
    LooksAhead bound (report diagnostic : Parser σ ρ Unit) := by
  intro state next value _ _ ran
  cases answer : Receiver.accept diagnostic state.sink with
  | error raised sink =>
      rw [report_of_error answer] at ran
      cases ran
  | ok _ sink =>
      rw [report_of_ok answer] at ran
      cases ran
      refine ⟨[], [diagnostic], .done _, Receiver.acceptAll?_of_ok answer, ?_⟩
      intro other last sink' _ _ walks _ acceptedAll
      obtain ⟨taken, accepted, same⟩ := Option.bind_eq_some_iff.1 acceptedAll
      have ran := report_of_ok (Receiver.accept?_eq_some.1 accepted)
      cases walks with
      | done => exact ⟨_, ran, rfl, Option.some.inj same⟩

theorem looksAhead_recover (code : Code) (kind : TokenKind) (lexeme : String) :
    LooksAhead bound (recover code kind lexeme : Parser σ ρ Token) := by
  apply LooksAhead.current
  intro found
  apply (looksAhead_report _).bind
  intro _
  apply (looksAhead_note _).bind
  intro _
  exact looksAhead_pure _

theorem looksAhead_operation (fixity : Fixity) (token : Token) :
    LooksAhead bound (operation fixity token : Parser σ ρ Operation) := by
  unfold operation
  cases token.operation? fixity with
  | some meaning => exact looksAhead_pure _
  | none =>
      apply (looksAhead_report _).bind
      intro _
      exact looksAhead_pure _

theorem looksAhead_expectBracket (bracket : Bracket) :
    LooksAhead bound (expectBracket bracket : Parser σ ρ Token) := by
  apply LooksAhead.eat
  intro found
  cases found with
  | some token => exact looksAhead_pure _
  | none => exact looksAhead_recover _ _ _

theorem looksAhead_separator (close : Bracket) :
    LooksAhead bound (separator close : Parser σ ρ Unit) := by
  apply LooksAhead.eat
  intro found
  cases found with
  | some token => exact looksAhead_pure _
  | none =>
      apply LooksAhead.beforeClose
      intro more
      cases more with
      | false => exact looksAhead_pure _
      | true => exact .current fun token => looksAhead_report _

/-- A loop may take any ample bound instead of the number of tokens that remain. -/
theorem LooksAhead.remaining {loop : Nat → Parser σ ρ α} (looks : LooksAhead bound (loop bound))
    (ample : ∀ count ≤ bound, AgreeWithin count (loop count) (loop bound)) :
    LooksAhead bound (Parser.remaining >>= loop) :=
  looks.ofAgree fun state ended few => ample state.cursor.remaining few state ended le_rfl

/-- By induction on the bound, items look ahead as each one does. -/
theorem LooksAhead.itemsWithin {item : Parser σ ρ α} (looks : LooksAhead bound item)
    (close : Bracket) (count : Nat) : LooksAhead bound (Parser.itemsWithin close item count) := by
  induction count with
  | zero => exact looksAhead_pure _
  | succ count inductionHypothesis =>
      apply LooksAhead.beforeClose
      intro more
      cases more with
      | false => exact looksAhead_pure _
      | true =>
          apply looks.bind
          intro first
          apply inductionHypothesis.bind
          intro rest
          exact looksAhead_pure _

/-- Whether an optional part follows is told by the current token. -/
theorem LooksAhead.optional {item : Parser σ ρ α} (looks : LooksAhead bound item)
    (kind : TokenKind) : LooksAhead bound (Parser.optional kind item) := by
  apply LooksAhead.eat
  intro found
  cases found with
  | none => exact looksAhead_pure _
  | some token =>
      apply looks.bind
      intro value
      exact looksAhead_pure _

theorem looksAhead_numberValue (token : Token) :
    LooksAhead bound (numberValue token : Parser σ ρ Binary64) := by
  unfold numberValue
  cases Binary64.read? token.lexeme with
  | some value => exact looksAhead_pure _
  | none =>
      apply (looksAhead_report _).bind
      intro _
      exact looksAhead_pure _

theorem looksAhead_passKeyword (keyword : Keyword) (code : Code) :
    LooksAhead bound (passKeyword keyword code : Parser σ ρ Unit) := by
  apply LooksAhead.eat
  intro found
  cases found with
  | some token => exact looksAhead_pure _
  | none => exact .current fun token => looksAhead_report _

end Steps

end Parser

end FrontEnd
