/-
This file runs the grammar on the spelling of a tree. Each rule gives back the tree that the
tokens spell, as long as the tokens after them cannot be a part of it.
-/

import FrontEnd.Parser.Entry
import FrontEnd.Proofs.Tree.Shape

namespace FrontEnd

/-- The kind of the next token, where nothing is left before an end marker. -/
def kindAhead (tokens : List Token) : TokenKind := (tokens.map Token.kind).headD .eof

@[simp] theorem kindAhead_nil : kindAhead [] = .eof := rfl

@[simp] theorem kindAhead_cons (token : Token) (rest : List Token) :
    kindAhead (token :: rest) = token.kind := rfl

/-- A kind ahead other than the end's is a token's. -/
theorem exists_cons_of_kindAhead {tokens : List Token} {kind : TokenKind}
    (ahead : kindAhead tokens = kind) (real : kind ≠ .eof) :
    ∃ token rest, tokens = token :: rest := by
  cases tokens with
  | nil => exact absurd ahead.symm real
  | cons token rest => exact ⟨token, rest, rfl⟩

/-- The kind of the first piece is ahead, whatever follows. -/
theorem Spells.kindAhead {piece : Piece} {pieces : List Piece} {taken : List Token}
    (spelled : Spells (piece :: pieces) taken) (rest : List Token) :
    kindAhead (taken ++ rest) = piece.kind := by
  obtain ⟨token, later, fits, -, rfl⟩ := spells_cons.1 spelled
  exact fits.kind_eq

/-- The marker at the end of some tokens is kept apart from them. -/
theorem TokenCursor.ofTokens_marked (tokens : List Token) {marker : Token}
    (ended : marker.kind = .eof) : ofTokens (tokens ++ [marker]) = ⟨[], tokens, marker⟩ := by
  simp [ofTokens, Token.isEof, ended]

/-- A fresh cursor ends at an end marker. A token after some others is the next one when they are
gone, whether it is the marker or not. -/
theorem TokenCursor.ofTokens_append (taken : List Token) (next : Token) (rest : List Token) :
    ∃ left marker, ofTokens (taken ++ next :: rest) = ⟨[], taken ++ left, marker⟩ ∧
      left.headD marker = next ∧ marker.kind = .eof := by
  obtain ⟨last, found⟩ : ∃ last, (next :: rest).getLast? = some last :=
    ⟨_, List.getLast?_eq_some_getLast (List.cons_ne_nil next rest)⟩
  have lastOfAll : (taken ++ next :: rest).getLast? = some last := by
    rw [List.getLast?_append, found]
    rfl
  unfold ofTokens
  rw [lastOfAll]
  by_cases ends : last.isEof
  · refine ⟨(next :: rest).dropLast, last, ?_, ?_, by simpa [Token.isEof] using ends⟩
    · simp only [ends, if_true, List.dropLast_append_cons]
    · cases rest with
      | nil => exact (Option.some.inj found).symm
      | cons token rest => rfl
  · refine ⟨next :: rest, Token.eof last.stop, ?_, rfl, rfl⟩
    simp only [ends, Bool.false_eq_true, if_false]

namespace Parser

variable {σ ρ α β : Type}

/-- A run that succeeds without a report has only moved over its tokens. -/
structure Kept (state next : State σ ρ) : Prop where
  tokens : next.cursor.tokens = state.cursor.tokens
  marker : next.cursor.marker = state.cursor.marker
  sink : next.sink = state.sink

theorem Kept.refl (state : State σ ρ) : Kept state state := ⟨rfl, rfl, rfl⟩

/-- What two runs keep they keep together. -/
theorem Kept.trans {first second third : State σ ρ} (before : Kept first second)
    (after : Kept second third) : Kept first third :=
  ⟨after.tokens.trans before.tokens, after.marker.trans before.marker,
    after.sink.trans before.sink⟩

/-- The place of a cursor over fixed tokens follows from what is left of them. -/
theorem Kept.position {state next : State σ ρ} (kept : Kept state next) :
    next.position + next.cursor.rest.length = state.position + state.cursor.rest.length := by
  have same := congrArg List.length kept.tokens
  simp only [TokenCursor.tokens, List.length_append, List.length_reverse,
    List.length_singleton] at same
  simp only [State.position, TokenCursor.position]
  omega

/-- A parser reads a value when it gives the value from one place and stops at another one,
without a report. -/
def Reads (parser : Parser σ ρ α) (before : List Token) (value : α) (after : List Token) : Prop :=
  ∀ state : State σ ρ, state.cursor.marker.kind = .eof → state.cursor.rest = before →
    ∃ next, parser state = .ok value next ∧ next.cursor.rest = after ∧ Kept state next

theorem reads_pure (value : α) (before : List Token) :
    Reads (pure value : Parser σ ρ α) before value before :=
  fun state _ starts => ⟨state, rfl, starts, Kept.refl state⟩

/-- Two readings after each other are one. -/
theorem Reads.bind {first : Parser σ ρ α} {rest : α → Parser σ ρ β}
    {before middle after : List Token}
    {value : α} {value' : β} (readsFirst : Reads first before value middle)
    (readsRest : Reads (rest value) middle value' after) :
    Reads (first >>= rest) before value' after := by
  intro state ends starts
  obtain ⟨between, ranFirst, stands, keptFirst⟩ := readsFirst state ends starts
  have endsBetween : between.cursor.marker.kind = .eof := by rw [keptFirst.marker, ends]
  obtain ⟨next, ranRest, stops, keptRest⟩ := readsRest between endsBetween stands
  exact ⟨next, by rw [bind_ok ranFirst, ranRest], stops, keptFirst.trans keptRest⟩

/-- Looking at the cursor reads what every cursor at this place shows. -/
theorem reads_look {view : TokenCursor → α} {before : List Token} {value : α}
    (shows : ∀ cursor : TokenCursor, cursor.marker.kind = .eof → cursor.rest = before →
      view cursor = value) :
    Reads (fun state : State σ ρ => .ok (view state.cursor) state) before value before := by
  intro state ends starts
  exact ⟨state, by simp only [shows state.cursor ends starts], starts, Kept.refl state⟩

/-- The cursor stands before the tokens that are left. -/
theorem reads_cursor {use : TokenCursor → Parser σ ρ α} {before after : List Token} {value : α}
    (reads : ∀ cursor : TokenCursor, cursor.marker.kind = .eof → cursor.rest = before →
      Reads (use cursor) before value after) :
    Reads (cursor >>= use) before value after := by
  intro state ends starts
  exact reads state.cursor ends starts state ends starts

/-- A loop takes its bound from the number of tokens ahead. -/
theorem reads_remaining {use : Nat → Parser σ ρ α} {before after : List Token} {value : α} :
    Reads (remaining >>= use) before value after ↔
      Reads (use before.length) before value after := by
  constructor
  all_goals
    intro reads state ends starts
    subst starts
    exact reads state ends rfl

/-- Making a node takes no token. -/
theorem reads_make [Observer σ] (node : α → Node) (value : α) (before : List Token) :
    Reads (make node value : Parser σ ρ α) before value before :=
  fun _ _ starts => ⟨_, rfl, starts, ⟨rfl, rfl, rfl⟩⟩

/-- Noting an event takes no token. -/
theorem reads_note (event : Event) (before : List Token) :
    Reads (note event : Parser σ ρ Unit) before () before :=
  fun _ _ starts => ⟨_, rfl, starts, ⟨rfl, rfl, rfl⟩⟩

/-- The state behind the next token. -/
def State.past (state : State σ ρ) (token : Token) (rest : List Token) : State σ ρ :=
  { state with
    cursor := { state.cursor with passed := token :: state.cursor.passed, rest := rest } }

/-- Taking a token keeps everything but the cursor's place. -/
theorem State.past_kept {state : State σ ρ} {token : Token} {rest : List Token}
    (starts : state.cursor.rest = token :: rest) : Kept state (state.past token rest) :=
  ⟨by simp [past, TokenCursor.tokens, starts], rfl, rfl⟩

section Steps

variable {state : State σ ρ} {token : Token} {rest : List Token}

/-- A cursor steps over the first token that is left. -/
theorem step?_cons {cursor : TokenCursor} (starts : cursor.rest = token :: rest)
    (goesOn : token.kind ≠ .eof) :
    cursor.step? =
      some (token, { cursor with passed := token :: cursor.passed, rest := rest }) := by
  simp [TokenCursor.step?, starts, Token.isEof, goesOn]

/-- A cursor stops before a marker, and where no token is left. -/
theorem step?_eof {cursor : TokenCursor} (ended : kindAhead cursor.rest = .eof) :
    cursor.step? = none := by
  obtain ⟨passed, rest, marker⟩ := cursor
  cases rest with
  | nil => rfl
  | cons token rest =>
      have kind : token.kind = .eof := ended
      simp [TokenCursor.step?, Token.isEof, kind]

theorem advance_cons (starts : state.cursor.rest = token :: rest) (goesOn : token.kind ≠ .eof) :
    (advance : Parser σ ρ Token) state = .ok token (state.past token rest) := by
  simp only [advance, step?_cons starts goesOn, State.past]

/-- A token is taken exactly when it is wanted. -/
theorem eatWhere_cons {wanted : Token → Bool} (starts : state.cursor.rest = token :: rest)
    (goesOn : token.kind ≠ .eof) :
    (eatWhere wanted : Parser σ ρ (Option Token)) state =
      if wanted token then .ok (some token) (state.past token rest) else .ok none state := by
  simp only [eatWhere, step?_cons starts goesOn, State.past]

/-- Before a marker no token is taken. -/
theorem eatWhere_eof {wanted : Token → Bool} (ended : kindAhead state.cursor.rest = .eof) :
    (eatWhere wanted : Parser σ ρ (Option Token)) state = .ok none state := by
  simp only [eatWhere, step?_eof ended]

theorem reads_advance (goesOn : token.kind ≠ .eof) :
    Reads (advance : Parser σ ρ Token) (token :: rest) token rest := by
  intro state _ starts
  exact ⟨_, advance_cons starts goesOn, rfl, State.past_kept starts⟩

theorem reads_eatWhere {wanted : Token → Bool} (goesOn : token.kind ≠ .eof)
    (fits : wanted token) :
    Reads (eatWhere wanted : Parser σ ρ (Option Token)) (token :: rest) (some token) rest := by
  intro state _ starts
  exact ⟨_, by rw [eatWhere_cons starts goesOn, if_pos fits], rfl, State.past_kept starts⟩

/-- A token that is not wanted stays where it is. -/
theorem reads_eatWhere_none {wanted : Token → Bool} {before : List Token}
    (misses : ∀ token rest, before = token :: rest → token.kind ≠ .eof → wanted token = false) :
    Reads (eatWhere wanted : Parser σ ρ (Option Token)) before none before := by
  rintro state - rfl
  refine ⟨state, ?_, rfl, Kept.refl state⟩
  by_cases ended : kindAhead state.cursor.rest = .eof
  · exact eatWhere_eof ended
  · cases starts : state.cursor.rest with
    | nil => simp [starts] at ended
    | cons token rest =>
        rw [starts, kindAhead_cons] at ended
        rw [eatWhere_cons starts ended, misses token rest starts ended]
        rfl

end Steps

theorem reads_eat {kind : TokenKind} {token : Token} {rest : List Token} (goesOn : kind ≠ .eof)
    (fits : token.kind = kind) :
    Reads (eat kind : Parser σ ρ (Option Token)) (token :: rest) (some token) rest :=
  reads_eatWhere (fits ▸ goesOn) (by simp [fits])

/-- A token of another kind is not taken. -/
theorem reads_eat_none {kind : TokenKind} {before : List Token}
    (misses : kindAhead before ≠ kind) :
    Reads (eat kind : Parser σ ρ (Option Token)) before none before := by
  apply reads_eatWhere_none
  intro token rest starts _
  subst starts
  simpa using misses

theorem reads_eatOneOf {operators : List Operator} {sign : Operator} {token : Token}
    {rest : List Token} (kind : token.kind = .operator sign) (fits : sign ∈ operators) :
    Reads (eatOneOf operators : Parser σ ρ (Option Token)) (token :: rest) (some token) rest :=
  reads_eatWhere (by simp [kind]) (by simpa [kind] using fits)

/-- A token that is none of the operators is not taken. -/
theorem reads_eatOneOf_none {operators : List Operator} {before : List Token}
    (misses : ∀ sign, kindAhead before = .operator sign → sign ∉ operators) :
    Reads (eatOneOf operators : Parser σ ρ (Option Token)) before none before := by
  apply reads_eatWhere_none
  intro token rest starts _
  subst starts
  simp only [kindAhead_cons] at misses
  simp only [List.any_eq_false, decide_eq_true_eq]
  exact fun sign member kind => misses sign kind member

/-- An operator with a meaning is read without a report. -/
theorem reads_operation [Receiver ρ] {fixity : Fixity} {token : Token} {meaning : Operation}
    (means : token.operation? fixity = some meaning) (before : List Token) :
    Reads (operation fixity token : Parser σ ρ Operation) before meaning before := by
  unfold operation
  rw [means]
  exact reads_pure meaning before

/-- A bracket that is there is read without a report. -/
theorem reads_expectBracket [Receiver ρ] {bracket : Bracket} {token : Token} {rest : List Token}
    (kind : token.kind = .bracket bracket) :
    Reads (expectBracket bracket : Parser σ ρ Token) (token :: rest) token rest :=
  (reads_eat (by simp) kind).bind (reads_pure token rest)

theorem reads_hasNext (before : List Token) :
    Reads (hasNext : Parser σ ρ Bool) before (kindAhead before ≠ .eof) before := by
  have shows : ∀ cursor : TokenCursor, cursor.marker.kind = .eof → cursor.rest = before →
      cursor.hasNext = decide (kindAhead before ≠ .eof) := by
    rintro cursor - rfl
    by_cases ended : kindAhead cursor.rest = .eof
    · simp [TokenCursor.hasNext, step?_eof ended, ended]
    · cases starts : cursor.rest with
      | nil => simp [starts] at ended
      | cons token rest =>
          rw [starts, kindAhead_cons] at ended
          simp [TokenCursor.hasNext, step?_cons starts ended, ended]
  exact reads_look shows

theorem reads_beforeClose {close : Bracket} {before : List Token}
    (more : kindAhead before ≠ .eof) :
    Reads (beforeClose close : Parser σ ρ Bool) before (kindAhead before != .bracket close)
      before := by
  let view (cursor : TokenCursor) : Bool :=
    cursor.hasNext && cursor.current.kind != .bracket close
  have shows : ∀ cursor : TokenCursor, cursor.marker.kind = .eof → cursor.rest = before →
      view cursor = (kindAhead before != .bracket close) := by
    intro cursor _ starts
    cases before with
    | nil => simp at more
    | cons token rest =>
        have goesOn : cursor.hasNext := by simp [TokenCursor.hasNext, step?_cons starts more]
        simp [view, goesOn, TokenCursor.current, starts]
  exact reads_look shows

/-- A comma before the next item is taken, and none is missed before the closing one. -/
theorem reads_separator_comma [Receiver ρ] {close : Bracket} {comma : Token} {rest : List Token}
    (kind : comma.kind = .symbol .comma) :
    Reads (separator close : Parser σ ρ Unit) (comma :: rest) () rest :=
  (reads_eat (by simp) kind).bind (reads_pure () rest)

/-- Before the closing bracket no comma is asked for. -/
theorem reads_separator_close [Receiver ρ] {close : Bracket} {before : List Token}
    (closes : kindAhead before = .bracket close) :
    Reads (separator close : Parser σ ρ Unit) before () before := by
  apply (reads_eat_none (by simp [closes])).bind
  apply (reads_beforeClose (by simp [closes])).bind
  simp only [closes, bne_self_eq_false, Bool.false_eq_true, if_false]
  exact reads_pure () before

section Items

variable {close : Bracket} {item : Parser σ ρ α}

/-- Before the closing bracket a list has no more items. -/
theorem reads_itemsWithin_nil {before : List Token} (closes : kindAhead before = .bracket close)
    (bound : Nat) : Reads (itemsWithin close item bound) before [] before := by
  cases bound with
  | zero => exact reads_pure [] before
  | succ bound =>
      apply (reads_beforeClose (by simp [closes])).bind
      simp only [closes, bne_self_eq_false, Bool.false_eq_true, if_false]
      exact reads_pure [] before

/-- An item is read first and the others after it. The tokens before it bound their number. -/
theorem reads_itemsWithin_cons {before after : List Token} (middle : List Token) {value : α}
    {values : List α} {count : Nat} (more : kindAhead before ≠ .eof)
    (opens : kindAhead before ≠ .bracket close) (counted : before.length ≤ count)
    (readsItem : Reads item before value middle)
    (readsRest : ∀ bound, before.length ≤ bound + 1 →
      Reads (itemsWithin close item bound) middle values after) :
    Reads (itemsWithin close item count) before (value :: values) after := by
  cases count with
  | zero =>
      obtain rfl := List.eq_nil_of_length_eq_zero (Nat.le_zero.1 counted)
      simp at more
  | succ bound =>
      apply (reads_beforeClose more).bind
      simp only [bne_iff_ne, ne_eq, opens, not_false_eq_true, if_true]
      exact readsItem.bind ((readsRest bound counted).bind (reads_pure (value :: values) after))

/-- A list is read when its items are. Before the closing parenthesis and the commas each item
must be whole. -/
theorem reads_listItems [Receiver ρ] {values : List α} {pieces : α → List Piece} {bound : Nat}
    (begins : ∀ value ∈ values, ∃ piece rest, pieces value = piece :: rest ∧
      piece.kind ≠ .eof ∧ piece.kind ≠ .bracket .closeParen)
    (reads : ∀ value ∈ values, ∀ taken rest, Spells (pieces value) taken →
      (taken ++ rest).length ≤ bound →
      kindAhead rest = .symbol .comma ∨ kindAhead rest = .bracket .closeParen →
        Reads item (taken ++ rest) value rest)
    {taken rest : List Token} (spelled : Spells (commaSeparated (values.map pieces)) taken)
    (closes : kindAhead rest = .bracket .closeParen)
    (within : (taken ++ rest).length ≤ bound) :
    Reads (listItems item) (taken ++ rest) values rest := by
  suffices enough : ∀ count, (taken ++ rest).length ≤ count →
      Reads (itemsWithin .closeParen (do
        let value ← item
        separator .closeParen
        return value) count) (taken ++ rest) values rest from
    reads_remaining.2 (enough _ le_rfl)
  intro count counted
  induction values generalizing taken count with
  | nil =>
      obtain rfl := spells_nil.1 spelled
      exact reads_itemsWithin_nil closes count
  | cons first others inductionHypothesis =>
      have starts : ∀ {taken : List Token}, Spells (pieces first) taken → ∀ rest,
          kindAhead (taken ++ rest) ≠ .eof ∧ kindAhead (taken ++ rest) ≠ .bracket .closeParen := by
        intro taken spelled rest
        obtain ⟨piece, later, same, notEnd, notClose⟩ := begins first List.mem_cons_self
        rw [Spells.kindAhead (same ▸ spelled) rest]
        exact ⟨notEnd, notClose⟩
      cases others with
      | nil =>
          rw [List.map_cons, List.map_nil, commaSeparated_singleton] at spelled
          obtain ⟨more, opens⟩ := starts spelled rest
          refine reads_itemsWithin_cons rest more opens counted ?_ fun bound _ => ?_
          · apply (reads first List.mem_cons_self taken rest spelled within (.inr closes)).bind
            exact (reads_separator_close closes).bind (reads_pure first rest)
          · exact reads_itemsWithin_nil closes bound
      | cons second others =>
          rw [List.map_cons, List.map_cons, commaSeparated_cons_cons] at spelled
          obtain ⟨own, tail, spelledOwn, spelledTail, rfl⟩ := spells_append.1 spelled
          obtain ⟨comma, others, kind, spelledOthers, rfl⟩ := spells_cons.1 spelledTail
          rw [List.append_assoc, List.cons_append] at counted within ⊢
          obtain ⟨more, opens⟩ := starts spelledOwn (comma :: (others ++ rest))
          refine reads_itemsWithin_cons (others ++ rest) more opens counted ?_
            fun bound counted => ?_
          · refine (reads first List.mem_cons_self own _ spelledOwn within (.inl kind)).bind ?_
            exact (reads_separator_comma kind).bind (reads_pure first _)
          · simp only [List.length_append, List.length_cons] at counted within
            refine inductionHypothesis (fun value member => begins value (.tail _ member))
              (fun value member => reads value (.tail _ member)) spelledOthers ?_ bound ?_
            all_goals
              rw [List.length_append]
              omega

end Items

end Parser

end FrontEnd
