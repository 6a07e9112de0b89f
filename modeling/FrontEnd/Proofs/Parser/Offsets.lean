/-
This file moves the tokens of a parse to other offsets. The parse takes the same steps, and its tree
and its reports move with the tokens.
-/

import FrontEnd.Proofs.Compilation
import FrontEnd.Proofs.Parser.Sinks
import FrontEnd.Proofs.Tree.RelocatedText

namespace FrontEnd

/-- An error moves with the diagnostic that it raises. -/
def ParseError.relocate (move : Nat → Nat) : ParseError → ParseError
  | .endOfFile => .endOfFile
  | .reported diagnostic => .reported (diagnostic.relocate move)

/-- A sink moves with the diagnostics that it holds. -/
def Sink.relocate (move : Nat → Nat) : Sink → Sink
  | .failFast => .failFast
  | .collect held => .collect (held.map (Diagnostic.relocate move))
  | .ignore => .ignore

theorem Sink.relocate_held (move : Nat → Nat) (sink : Sink) :
    (sink.relocate move).held = sink.held.map (Diagnostic.relocate move) := by
  cases sink <;> rfl

/-- A sink that holds nothing has nothing to move. -/
theorem Sink.relocate_fresh (move : Nat → Nat) {sink : Sink} (fresh : sink.held = []) :
    sink.relocate move = sink := by
  cases sink with
  | failFast => rfl
  | ignore => rfl
  | collect held =>
      have none : held = [] := fresh
      rw [none]
      rfl

namespace Parser

variable {σ τ α β γ δ : Type} {move : Nat → Nat}

/-- A state is moved when its tokens and its diagnostics are. -/
structure Moved (move : Nat → Nat) (state : State σ) (state' : State τ) : Prop where
  cursor : state'.cursor = state.cursor.relocate move
  sink : state'.sink = state.sink.relocate move

/-- An outcome is moved when its value and its state are. Only a run whose sink stops at the first
diagnostic ends with one. -/
inductive Outcome.IsMoved (move : Nat → Nat) (stops : Prop) (image : α → β) :
    Outcome σ Sink α → Outcome τ Sink β → Prop
  | ok {state : State σ} {state' : State τ} (value : α) (moved : Moved move state state')
      (same : state.sink = .failFast ↔ stops) :
      IsMoved move stops image (.ok value state) (.ok (image value) state')
  | error {state : State σ} {state' : State τ} (error : ParseError)
      (moved : Moved move state state') (escalates : error ≠ .endOfFile → stops) :
      IsMoved move stops image (.error error state) (.error (error.relocate move) state')

/-- The states that moved runs end in are moved. -/
theorem Outcome.IsMoved.states {stops : Prop} {image : α → β} {outcome : Outcome σ Sink α}
    {outcome' : Outcome τ Sink β} (isMoved : Outcome.IsMoved move stops image outcome outcome') :
    Moved move outcome.state outcome'.state := by
  cases isMoved with
  | ok _ moved _ => exact moved
  | error _ moved _ => exact moved

/-- The result of a moved run is the moved result. -/
theorem Outcome.IsMoved.result {stops : Prop} {image : α → β} {outcome : Outcome σ Sink α}
    {outcome' : Outcome τ Sink β} (isMoved : Outcome.IsMoved move stops image outcome outcome') :
    outcome'.result = (outcome.result.map image).mapError (ParseError.relocate move) := by
  cases isMoved <;> rfl

theorem Outcome.IsMoved.stops {stops : Prop} {image : α → β} {outcome : Outcome σ Sink α}
    {outcome' : Outcome τ Sink β} (isMoved : Outcome.IsMoved move stops image outcome outcome')
    {error : ParseError} (failed : outcome.result = .error error) (reports : error ≠ .endOfFile) :
    stops := by
  cases isMoved with
  | ok => cases failed
  | error _ _ escalates =>
      cases failed
      exact escalates reports

/-- Two parsers move together when each run of the first one from a state becomes a run of the
second one from the moved state. -/
def MoveTogether (move : Nat → Nat) (image : α → β) (parser : Parser σ Sink α)
    (parser' : Parser τ Sink β) : Prop :=
  ∀ (state : State σ) (state' : State τ), Moved move state state' →
    Outcome.IsMoved move (state.sink = .failFast) image (parser state) (parser' state')

/-- Sequences move together as their parts do. -/
theorem MoveTogether.bind {image : α → β} {image' : γ → δ} {first : Parser σ Sink α}
    {first' : Parser τ Sink β} {rest : α → Parser σ Sink γ} {rest' : β → Parser τ Sink δ}
    (firstMoves : MoveTogether move image first first')
    (restMove : ∀ value, MoveTogether move image' (rest value) (rest' (image value))) :
    MoveTogether move image' (first >>= rest) (first' >>= rest') := by
  intro state state' start
  have ran := firstMoves state state' start
  generalize found : first state = outcome at ran
  generalize found' : first' state' = outcome' at ran
  cases ran with
  | @ok next next' value moved same =>
      rw [bind_ok found, bind_ok found', ← propext same]
      exact restMove value next next' moved
  | @error next next' error moved escalates =>
      rw [bind_error found, bind_error found']
      exact .error error moved escalates

/-- Looking at the cursor shows the moved view of it. -/
theorem MoveTogether.look {image : α → β} {view : TokenCursor → α} {view' : TokenCursor → β}
    (shows : ∀ cursor : TokenCursor, view' (cursor.relocate move) = image (view cursor)) :
    MoveTogether move image (fun state : State σ => .ok (view state.cursor) state)
      (fun state : State τ => .ok (view' state.cursor) state) := by
  intro state state' start
  simp only [start.cursor, shows]
  exact .ok _ start Iff.rfl

theorem MoveTogether.advance :
    MoveTogether move (Token.relocate move) (Parser.advance : Parser σ Sink Token)
      (Parser.advance : Parser τ Sink Token) := by
  intro state state' start
  simp only [Parser.advance, start.cursor, TokenCursor.relocate_step?]
  cases state.cursor.step? with
  | none => exact .error .endOfFile start (absurd rfl)
  | some step => exact .ok step.1 ⟨rfl, start.sink⟩ Iff.rfl

/-- A test that is blind to offsets takes a token in both runs or in neither. -/
theorem MoveTogether.eatWhere {wanted : Token → Bool}
    (blind : ∀ token : Token, wanted (token.relocate move) = wanted token) :
    MoveTogether move (Option.map (Token.relocate move))
      (Parser.eatWhere wanted : Parser σ Sink (Option Token))
      (Parser.eatWhere wanted : Parser τ Sink (Option Token)) := by
  intro state state' start
  simp only [Parser.eatWhere, start.cursor, TokenCursor.relocate_step?]
  cases state.cursor.step? with
  | none => exact .ok none start Iff.rfl
  | some step =>
      simp only [Option.map_some, blind]
      by_cases fits : wanted step.1
      · simp only [fits, if_true]
        exact .ok (some step.1) ⟨rfl, start.sink⟩ Iff.rfl
      · simp only [fits, Bool.false_eq_true, if_false]
        exact .ok none start Iff.rfl

/-- A sink takes a moved diagnostic exactly when it takes the diagnostic. -/
theorem MoveTogether.report (diagnostic : Diagnostic) :
    MoveTogether move id (Parser.report diagnostic : Parser σ Sink Unit)
      (Parser.report (diagnostic.relocate move) : Parser τ Sink Unit) := by
  intro state state' start
  simp only [Parser.report, start.sink]
  cases sink : state.sink with
  | failFast =>
      exact .error (.reported diagnostic) ⟨start.cursor, rfl⟩ fun _ => rfl
  | collect held => exact .ok () ⟨start.cursor, by simp [Sink.relocate]⟩ (by simp)
  | ignore => exact .ok () ⟨start.cursor, rfl⟩ (by simp)

/-- Every rule of the grammar moves with its tokens, since the primitive steps do. -/
def moveSimulation (move : Nat → Nat) (σ τ : Type) [Observer σ] [Observer τ] :
    Simulation move σ τ Sink where
  Rel := MoveTogether move
  pure _ value := fun _ _ start => .ok value start Iff.rfl
  bind := MoveTogether.bind
  look := MoveTogether.look
  advance := MoveTogether.advance
  eatWhere := MoveTogether.eatWhere
  note _ := fun _ _ start => .ok () ⟨start.cursor, start.sink⟩ Iff.rfl
  report := MoveTogether.report
  make _ value := fun _ _ start => .ok value ⟨start.cursor, start.sink⟩ Iff.rfl

end Parser

/-- Moved tokens with a marker at their end put the moved cursor before them. -/
theorem TokenCursor.ofTokens_relocate {move : Nat → Nat} {tokens : List Token}
    (marked : tokens.getLast?.any Token.isEof) :
    ofTokens (tokens.map (Token.relocate move)) = (ofTokens tokens).relocate move := by
  cases found : tokens.getLast? with
  | none => simp [found] at marked
  | some last =>
      have ends : last.isEof = true := by simpa [found] using marked
      simp [ofTokens, found, ends, relocate, List.map_dropLast]

section Runs

variable {σ τ : Type} [Observer σ] [Observer τ] {tokens tokens' : List Token}

/-- A parse of moved tokens is the moved parse. -/
theorem Entry.parse_relocate (move : Nat → Nat) (entry : Entry)
    (marked : tokens.getLast?.any Token.isEof) (sink : Sink) (observed : σ) (observed' : τ) :
    Parser.Outcome.IsMoved move (sink = .failFast) (Node.relocate move)
      (entry.parse tokens sink observed)
      (entry.parse (tokens.map (Token.relocate move)) (sink.relocate move) observed') :=
  (Parser.moveSimulation move σ τ).entry entry (.start tokens sink observed)
    (.start (tokens.map (Token.relocate move)) (sink.relocate move) observed')
    ⟨TokenCursor.ofTokens_relocate marked, rfl⟩

/-- Every report of a parse stands at one of its tokens. If one did not, moving all other offsets
would move the report and no token. -/
theorem Entry.parse_reports (entry : Entry) (marked : tokens.getLast?.any Token.isEof)
    {sink : Sink} (fresh : sink.held = []) (observed : σ) :
    (∀ diagnostic ∈ (entry.parse tokens sink observed).state.sink.held,
        diagnostic.offset ∈ tokens.map Token.offset) ∧
      ∀ diagnostic, (entry.parse tokens sink observed).result = .error (.reported diagnostic) →
        diagnostic.offset ∈ tokens.map Token.offset := by
  let move (offset : Nat) : Nat := if offset ∈ tokens.map Token.offset then offset else offset + 1
  have unmoved : tokens.map (Token.relocate move) = tokens := by
    conv_rhs => rw [← List.map_id tokens]
    refine List.map_congr_left fun token member => ?_
    have stays : move token.offset = token.offset := if_pos (List.mem_map_of_mem member)
    rw [Token.relocate, stays]
    rfl
  have fixed {diagnostic : Diagnostic} (same : diagnostic.relocate move = diagnostic) :
      diagnostic.offset ∈ tokens.map Token.offset := by
    have stays : move diagnostic.offset = diagnostic.offset := congrArg Diagnostic.offset same
    by_contra outside
    rw [show move diagnostic.offset = diagnostic.offset + 1 from if_neg outside] at stays
    exact absurd stays (Nat.succ_ne_self _)
  have itself := entry.parse_relocate move marked sink observed observed
  rw [unmoved, Sink.relocate_fresh move fresh] at itself
  constructor
  · intro diagnostic member
    have same := congrArg Sink.held itself.states.sink
    rw [Sink.relocate_held] at same
    exact fixed (List.map_inj_left.1 (same.symm.trans (List.map_id _).symm) diagnostic member)
  · intro diagnostic failed
    have same := itself.result
    rw [failed] at same
    exact fixed (ParseError.reported.inj (Except.error.inj same)).symm

end Runs

/-- Tokens are alike when at most their offsets differ. -/
structure Token.Alike (token token' : Token) : Prop where
  kind : token.kind = token'.kind
  lexeme : token.lexeme = token'.lexeme
  error : token.error = token'.error

/-- At the same offset, tokens that are alike are the same. -/
theorem Token.Alike.relocate {token token' : Token} (alike : token.Alike token') (offset : Nat) :
    token.relocate (fun _ => offset) = token'.relocate fun _ => offset := by
  obtain ⟨kind, lexeme, error⟩ := alike
  simp [Token.relocate, kind, lexeme, error]

/-- Tokens with their indices for offsets. -/
def numbered (tokens : List Token) : List Token :=
  tokens.mapIdx fun index token => token.relocate fun _ => index

/-- The offset of the token with an index. -/
def offsetAt (tokens : List Token) (index : Nat) : Nat := (tokens[index]?.map Token.offset).getD 0

/-- Every token finds its offset again by its number. -/
theorem numbered_relocate (tokens : List Token) :
    (numbered tokens).map (Token.relocate (offsetAt tokens)) = tokens := by
  refine List.ext_getElem (by simp [numbered]) fun index bound bound' => ?_
  simp [numbered, offsetAt, Token.relocate, bound']

/-- Tokens that are alike are numbered alike. -/
theorem numbered_alike {tokens tokens' : List Token}
    (alike : List.Forall₂ Token.Alike tokens tokens') : numbered tokens = numbered tokens' := by
  obtain ⟨length, each⟩ := List.forall₂_iff_get.1 alike
  refine List.ext_getElem (by simp [numbered, length]) fun index bound bound' => ?_
  simp only [numbered, List.length_mapIdx] at bound bound'
  simpa [numbered] using (each index bound bound').relocate index

/-- Alike tokens are equal without their offsets. -/
theorem erased_alike {tokens tokens' : List Token}
    (alike : List.Forall₂ Token.Alike tokens tokens') :
    tokens'.map (Token.relocate fun _ => 0) = tokens.map (Token.relocate fun _ => 0) :=
  forall₂_map_eq alike fun _ _ _ same => (same.relocate 0).symm

/-- Trees are alike when at most the offsets of their tokens differ. Their canonical texts are
equal, and so are their outlines, which show the offsets of statements that were of no use. -/
structure Node.Alike (node node' : Node) : Prop where
  tree : node.relocate (fun _ => 0) = node'.relocate fun _ => 0
  format : node.format = node'.format
  outline : WithoutRecovery (node.nodes 0) → node.outline = node'.outline

/-- Trees that are the same without their offsets look the same. -/
theorem Node.Alike.ofTree {node node' : Node}
    (tree : node.relocate (fun _ => 0) = node'.relocate fun _ => 0) : node.Alike node' where
  tree := tree
  format := by
    rw [← node.relocate_format fun _ => 0, tree, relocate_format]
  outline := by
    intro free
    have free' : WithoutRecovery (node'.nodes 0) := by
      rwa [← node.withoutRecovery_relocate (fun _ => 0), tree, withoutRecovery_relocate] at free
    have erased : (node.relocate fun _ => 0).outline = node.outline := Node.relocate_outline free
    rw [← erased, tree, Node.relocate_outline free']

/-- Diagnostics are alike when each says the same about the token with the same index. -/
structure Diagnostic.Alike (tokens tokens' : List Token) (diagnostic diagnostic' : Diagnostic) :
    Prop where
  code : diagnostic.code = diagnostic'.code
  length : diagnostic.length = diagnostic'.length
  place : ∃ index : Nat, tokens[index]?.map Token.offset = some diagnostic.offset ∧
    tokens'[index]?.map Token.offset = some diagnostic'.offset

inductive ParseError.Alike (tokens tokens' : List Token) : ParseError → ParseError → Prop
  | endOfFile : Alike tokens tokens' .endOfFile .endOfFile
  | reported {diagnostic diagnostic' : Diagnostic}
      (same : diagnostic.Alike tokens tokens' diagnostic') :
      Alike tokens tokens' (.reported diagnostic) (.reported diagnostic')

/-- Runs are alike when they end in the same place with answers and diagnostics that are. -/
structure Parser.Outcome.Alike {σ τ : Type} (tokens tokens' : List Token)
    (outcome : Parser.Outcome σ Sink Node) (outcome' : Parser.Outcome τ Sink Node) : Prop where
  position : outcome.state.position = outcome'.state.position
  held : List.Forall₂ (Diagnostic.Alike tokens tokens') outcome.state.sink.held
    outcome'.state.sink.held
  result : match outcome.result, outcome'.result with
    | .ok node, .ok node' => node.Alike node'
    | .error error, .error error' => error.Alike tokens tokens' error'
    | _, _ => False

section Alike

variable {σ τ : Type} [Observer σ] [Observer τ] {tokens tokens' : List Token}

/-- Reports on the numbered tokens stand at alike reports on the tokens themselves. -/
theorem Diagnostic.alike_of_numbered (alike : List.Forall₂ Token.Alike tokens tokens')
    {diagnostic : Diagnostic} (stands : diagnostic.offset ∈ (numbered tokens).map Token.offset) :
    (diagnostic.relocate (offsetAt tokens)).Alike tokens tokens'
      (diagnostic.relocate (offsetAt tokens')) := by
  have bound : diagnostic.offset < tokens.length := by
    obtain ⟨token, member, same⟩ := List.mem_map.1 stands
    obtain ⟨index, inside, rfl⟩ := List.getElem_of_mem member
    simp only [numbered, List.length_mapIdx] at inside
    rw [← same]
    simpa [numbered, Token.relocate] using inside
  have bound' : diagnostic.offset < tokens'.length := alike.length_eq ▸ bound
  refine ⟨rfl, rfl, diagnostic.offset, ?_, ?_⟩ <;> simp [relocate, offsetAt, bound, bound']

/-- Parses of alike tokens are alike, since both are the moved parse of the numbered tokens. -/
theorem Entry.parse_alike (entry : Entry) {sink : Sink} (fresh : sink.held = [])
    (marked : tokens.getLast?.any Token.isEof) (alike : List.Forall₂ Token.Alike tokens tokens')
    (observed : σ) (observed' : τ) :
    (entry.parse tokens sink observed).Alike tokens tokens'
      (entry.parse tokens' sink observed') := by
  have markedNumbered : (numbered tokens).getLast?.any Token.isEof := by
    rw [← numbered_relocate tokens, List.getLast?_map, Option.any_map] at marked
    exact marked
  have marked' : tokens'.getLast?.any Token.isEof := by
    rw [← numbered_relocate tokens', ← numbered_alike alike, List.getLast?_map, Option.any_map]
    exact markedNumbered
  let outcome := entry.parse (numbered tokens) sink observed
  have moved := entry.parse_relocate (offsetAt tokens) markedNumbered sink observed observed
  have moved' := entry.parse_relocate (offsetAt tokens') markedNumbered sink observed observed'
  rw [numbered_relocate, Sink.relocate_fresh _ fresh] at moved
  rw [numbered_alike alike, numbered_relocate, ← numbered_alike alike,
    Sink.relocate_fresh _ fresh] at moved'
  obtain ⟨heldStand, errorStands⟩ := entry.parse_reports markedNumbered fresh observed
  refine ⟨?_, ?_, ?_⟩
  · show TokenCursor.position _ = TokenCursor.position _
    rw [moved.states.cursor, moved'.states.cursor]
    simp [TokenCursor.position, TokenCursor.relocate]
  · rw [moved.states.sink, moved'.states.sink, Sink.relocate_held, Sink.relocate_held,
      List.forall₂_map_left_iff, List.forall₂_map_right_iff]
    exact List.forall₂_same.2 fun diagnostic member =>
      Diagnostic.alike_of_numbered alike (heldStand diagnostic member)
  · have erased := entry.parse_relocate (fun _ => 0) marked sink observed ()
    have erased' := entry.parse_relocate (fun _ => 0) marked' sink observed' ()
    rw [erased_alike alike] at erased'
    have trees := erased.result.symm.trans erased'.result
    rw [moved.result, moved'.result] at trees ⊢
    cases found : (entry.parse (numbered tokens) sink observed).result with
    | ok node =>
        rw [found] at trees
        exact .ofTree (Except.ok.inj trees)
    | error error =>
        cases error with
        | endOfFile => exact .endOfFile
        | reported diagnostic =>
            exact .reported (Diagnostic.alike_of_numbered alike (errorStands diagnostic found))

end Alike

namespace Compilation

/-- The canonical text of a source that has a tree. -/
def canonicalText? (compilation : Compilation) : Option String :=
  compilation.result.toOption.map fun root => (Node.root root).format

variable {source source' : Source} {tokens tokens' : List Token}

/-- The canonical text of a source is found without the offsets of its tokens. -/
theorem canonicalText?_erased (lexed : tokenize source.text = .ok tokens) (sink : Sink) :
    (ofSource source sink).canonicalText? =
      (Parser.Outcome.result (Parser.root (Parser.State.start
        (tokens.map (Token.relocate fun _ => 0)) (sink.relocate fun _ => 0) ()))).toOption.map
          fun root => (Node.root root).format := by
  have trees : (ofSource source sink).result.toOption =
      (Parser.Outcome.result (Parser.root (started source sink tokens))).toOption := by
    have read : (Parser.root : Parser Unit Sink Root).read source sink () =
        .ok (Parser.root (started source sink tokens)) := by
      rw [Parser.read, lexed]
      rfl
    rw [ofSource, read]
    cases Parser.root (started source sink tokens) <;> rfl
  have marked : tokens.getLast?.any Token.isEof := by
    obtain ⟨body, stop, rfl, -⟩ := tokenize_wellSpelled lexed
    simp [Token.isEof, Token.eof]
  have start : Parser.Moved (fun _ => 0) (started source sink tokens)
      (Parser.State.start (tokens.map (Token.relocate fun _ => 0)) (sink.relocate fun _ => 0) ()) :=
    ⟨TokenCursor.ofTokens_relocate marked, rfl⟩
  have moved := (Parser.moveSimulation (fun _ => 0) Unit Unit).root _ _ start
  rw [moved.result, canonicalText?, trees]
  cases Parser.Outcome.result (Parser.root (started source sink tokens)) with
  | error error => rfl
  | ok root => exact congrArg some ((Node.root root).relocate_format _).symm

/-- Sources are formatted alike when their tokens have the same kinds and spellings. -/
theorem canonicalText?_alike (lexed : tokenize source.text = .ok tokens)
    (lexed' : tokenize source'.text = .ok tokens')
    (same : tokens.map (fun token => (token.kind, token.lexeme)) =
      tokens'.map fun token => (token.kind, token.lexeme)) (sink : Sink) :
    (ofSource source sink).canonicalText? = (ofSource source' sink).canonicalText? := by
  have genuine {text : String} {tokens : List Token} (lexed : tokenize text = .ok tokens) :
      tokens.map (Token.relocate fun _ => 0) =
        (tokens.map fun token => (token.kind, token.lexeme)).map
          fun (kind, lexeme) => ⟨0, kind, lexeme, false⟩ := by
    obtain ⟨body, stop, rfl, well⟩ := tokenize_wellSpelled lexed
    have flags : ∀ token ∈ body ++ [Token.eof stop], token.error = false := by
      intro token member
      rcases List.mem_append.1 member with inside | last
      · exact (well token inside).genuine
      · rw [List.mem_singleton.1 last]
        rfl
    rw [List.map_map]
    exact List.map_congr_left fun token member => by
      simp [Token.relocate, flags token member]
  rw [canonicalText?_erased lexed, canonicalText?_erased lexed', genuine lexed, genuine lexed',
    same]

end Compilation

/-- A parse depends on no offset: not on where its tokens stand, and not on the blanks between
them in a source. -/
theorem parse_blindToLayout :
    (∀ {σ τ : Type} [Observer σ] [Observer τ] (entry : Entry) (tokens tokens' : List Token)
      (sink : Sink) (observed : σ) (observed' : τ), sink.held = [] →
      tokens.getLast?.any Token.isEof → List.Forall₂ Token.Alike tokens tokens' →
      (entry.parse tokens sink observed).Alike tokens tokens'
          (entry.parse tokens' sink observed') ∧
        (sink ≠ .failFast → ∀ error, (entry.parse tokens sink observed).result = .error error →
          error = .endOfFile)) ∧
    ∀ (source source' : Source) (sink : Sink) (tokens tokens' : List Token),
      tokenize source.text = .ok tokens → tokenize source'.text = .ok tokens' →
      tokens.map (fun token => (token.kind, token.lexeme)) =
        tokens'.map (fun token => (token.kind, token.lexeme)) →
      (Compilation.ofSource source sink).canonicalText? =
        (Compilation.ofSource source' sink).canonicalText? := by
  refine ⟨?_, fun _ _ sink _ _ lexed lexed' same =>
    Compilation.canonicalText?_alike lexed lexed' same sink⟩
  intro σ τ _ _ entry tokens tokens' sink observed observed' fresh marked alike
  refine ⟨entry.parse_alike fresh marked alike observed observed', fun goesOn error failed => ?_⟩
  by_contra reports
  have itself := entry.parse_relocate id marked sink observed observed
  exact goesOn (itself.stops failed reports)

/-- A missing operand is reported at the same token of both lines, and a text keeps its canonical
form when blanks come between its tokens. -/
theorem parse_spacedOut :
    let tight := [⟨0, .identifier, "a", false⟩, ⟨1, .operator .plus, "+", false⟩,
      ⟨2, .bracket .closeParen, ")", false⟩, Token.eof 3]
    let loose := [⟨2, .identifier, "a", false⟩, ⟨7, .operator .plus, "+", false⟩,
      ⟨9, .bracket .closeParen, ")", false⟩, Token.eof 12]
    (Entry.statement.parse tight (.collect []) ()).Alike tight loose
      (Entry.statement.parse loose (.collect []) ()) ∧
    (Compilation.ofSource ⟨"let a=-1", none⟩ .failFast).canonicalText? =
      (Compilation.ofSource ⟨"let a =\n  - 1\n", none⟩ .failFast).canonicalText? := by
  intro tight loose
  have alike : List.Forall₂ Token.Alike tight loose :=
    .cons ⟨rfl, rfl, rfl⟩ (.cons ⟨rfl, rfl, rfl⟩ (.cons ⟨rfl, rfl, rfl⟩
      (.cons ⟨rfl, rfl, rfl⟩ .nil)))
  have lexed : ∃ tokens, tokenize "let a=-1" = .ok tokens ∧ ∃ tokens',
      tokenize "let a =\n  - 1\n" = .ok tokens' ∧
        tokens.map (fun token => (token.kind, token.lexeme)) =
          tokens'.map (fun token => (token.kind, token.lexeme)) :=
    ⟨_, rfl, _, rfl, rfl⟩
  obtain ⟨tokens, found, tokens', found', same⟩ := lexed
  obtain ⟨parses, sources⟩ := parse_blindToLayout
  exact ⟨(parses .statement tight loose (.collect []) () () rfl rfl alike).1,
    sources _ _ .failFast tokens tokens' found found' same⟩

end FrontEnd
