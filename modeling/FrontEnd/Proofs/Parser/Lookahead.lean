/-
This file shows how far a parse looks ahead. What a part of a file is parsed to depends on the
tokens up to the place where the parse stops and on the one after it, and on nothing behind.
-/

import FrontEnd.Proofs.Parser.Alongside
import FrontEnd.Proofs.Parser.Progress

namespace FrontEnd

namespace Parser

variable {σ ρ α : Type} [Observer σ] [Receiver ρ] {bound : Nat}

/-- A list looks at the token behind an item for its comma or its bracket. -/
theorem LooksAhead.listItems {item : Parser σ ρ α} (looks : LooksAhead bound item)
    (forward : Forward item) (takes : TakesWithin bound item) :
    LooksAhead bound (Parser.listItems item) := by
  have looksItem : LooksAhead bound (item >>= fun value =>
      separator .closeParen >>= fun _ => pure value) := by
    apply looks.bind
    intro value
    apply (looksAhead_separator _).bind
    intro _
    exact looksAhead_pure _
  refine .remaining (looksItem.itemsWithin _ _) fun count few => ?_
  exact itemsWithin_agree (listItem_forward forward) ((takesWithin_listItem takes).mono few)
    (.refl _ _) le_rfl few

/-- A missing name is told by the current token. -/
theorem looksAhead_identifier : LooksAhead bound (identifier : Parser σ ρ Identifier) := by
  apply LooksAhead.eat
  intro found
  cases found with
  | some token => exact looksAhead_make _ _
  | none =>
      apply LooksAhead.advance
      intro token
      apply (looksAhead_report _).bind
      intro _
      exact looksAhead_make _ _

section Levels

variable {operand : Parser σ ρ Expression} (looks : LooksAhead bound operand)

include looks

/-- By induction on the bound, a chain looks for one more operator. -/
theorem LooksAhead.binaryWithin (operators : List Operator) (count : Nat) (left : Expression) :
    LooksAhead bound (Parser.binaryWithin operators operand count left) := by
  induction count generalizing left with
  | zero => exact looksAhead_pure _
  | succ count inductionHypothesis =>
      apply LooksAhead.eat
      intro found
      cases found with
      | none => exact looksAhead_pure _
      | some token =>
          apply (looksAhead_operation _ _).bind
          intro meaning
          apply looks.bind
          intro right
          apply (looksAhead_make _ _).bind
          intro node
          exact inductionHypothesis node

theorem LooksAhead.binary (forward : Forward operand) (operators : List Operator) :
    LooksAhead bound (Parser.binary operators operand) := by
  apply looks.bind
  intro left
  refine .remaining (looks.binaryWithin operators bound left) fun count few => ?_
  exact binaryWithin_agree forward (.refl _ _) le_rfl few

/-- By induction on the ranks, each looks ahead no further than its operands. -/
theorem LooksAhead.tower (forward : Forward operand) (operators : List (List Operator)) :
    LooksAhead bound (Parser.tower operand operators) := by
  induction operators with
  | nil => exact looks
  | cons looser tighter inductionHypothesis =>
      have related := forward.related (Expression.relocate id)
      exact inductionHypothesis.binary ((forwardSimulation σ ρ).tower related tighter) looser

/-- By induction on the bound, a sign is the current token. -/
theorem LooksAhead.prefixedWithin (count : Nat) :
    LooksAhead bound (Parser.prefixedWithin operand count) := by
  induction count with
  | zero => exact looks
  | succ count inductionHypothesis =>
      apply LooksAhead.eat
      intro found
      cases found with
      | none => exact looks
      | some token =>
          apply (looksAhead_operation _ _).bind
          intro meaning
          apply inductionHypothesis.bind
          intro inner
          exact looksAhead_make _ _

theorem LooksAhead.prefixed (forward : Forward operand) :
    LooksAhead bound (Parser.prefixed operand) := by
  refine .remaining (looks.prefixedWithin bound) fun count few => ?_
  exact prefixedWithin_agree forward (.refl _ _) le_rfl few

/-- Whether a sign belongs to the operand before it is seen from the token after the sign. This is
the only look at that token. -/
theorem LooksAhead.postfixed : LooksAhead bound (Parser.postfixed operand) := by
  apply looks.bind
  intro value
  let close (closes : Bool) : Parser σ ρ Expression :=
    if closes then do
      let token ← Parser.advance
      let meaning ← Parser.operation .after token
      Parser.makeExpression (.postfixed value meaning token)
    else return value
  show LooksAhead bound ((fun state => .ok (closesOperand state.cursor) state) >>= close)
  refine .look closesOperand (fun cursor other ended ended' shows => ?_) fun closes => ?_
  · rw [closesOperand, closesOperand, TokenCursor.hasNext_eq ended,
      TokenCursor.hasNext_eq ended', shows.current]
    cases goesOn : cursor.current.isEof with
    | true => rfl
    | false => rw [shows.following goesOn]
  · cases closes with
    | false => exact looksAhead_pure _
    | true =>
        apply LooksAhead.advance
        intro token
        apply (looksAhead_operation _ _).bind
        intro meaning
        exact looksAhead_make _ _

end Levels

/-- A literal is told by the current token. -/
theorem looksAhead_literal : LooksAhead bound (literal : Parser σ ρ Expression) := by
  apply LooksAhead.eat
  intro found
  cases found with
  | some token =>
      apply (looksAhead_numberValue token).bind
      intro value
      exact looksAhead_make _ _
  | none =>
      apply LooksAhead.eat
      intro found
      cases found with
      | some token => exact looksAhead_make _ _
      | none =>
          apply LooksAhead.eat
          intro found
          cases found with
          | some token => exact looksAhead_make _ _
          | none =>
              apply looksAhead_identifier.bind
              intro name
              exact looksAhead_pure _

section Inner

variable (inside : LooksAhead bound (expression : Parser σ ρ Expression))

include inside

/-- A group is told by its first parenthesis. -/
theorem looksAhead_primary :
    LooksAhead (bound + 1) (primary expression : Parser σ ρ Expression) := by
  apply LooksAhead.eatWhere
  · exact looksAhead_literal
  · intro opening
    apply inside.bind
    intro content
    apply (looksAhead_expectBracket _).bind
    intro close
    exact looksAhead_make _ _

/-- By induction on the bound, a call or a property is told by the current token. -/
theorem looksAhead_callWithin (count : Nat) (receiver : Expression) :
    LooksAhead (bound + 1) (callWithin expression count receiver : Parser σ ρ Expression) := by
  induction count generalizing receiver with
  | zero => exact looksAhead_pure _
  | succ count inductionHypothesis =>
      apply LooksAhead.eatWhere
      · apply LooksAhead.eat
        intro found
        cases found with
        | none => exact looksAhead_pure _
        | some token =>
            apply looksAhead_identifier.bind
            intro name
            apply (looksAhead_make _ _).bind
            intro node
            exact inductionHypothesis node
      · intro opening
        apply (inside.listItems (forwardSimulation σ ρ).expression (takesWithin_expression _)).bind
        intro arguments
        apply (looksAhead_expectBracket _).bind
        intro close
        apply (looksAhead_make _ _).bind
        intro node
        exact (inductionHypothesis node).mono (Nat.le_succ bound)

theorem looksAhead_call : LooksAhead (bound + 1) (call expression : Parser σ ρ Expression) := by
  apply (looksAhead_primary inside).bind
  intro receiver
  refine .remaining (looksAhead_callWithin inside _ receiver) fun count few => ?_
  exact callWithin_agree (forwardSimulation σ ρ).expression (takesWithin_expression bound)
    (.refl _ _) few le_rfl few

/-- A conditional is told by its keyword. -/
theorem looksAhead_conditional :
    LooksAhead (bound + 1) (conditional expression : Parser σ ρ Expression) := by
  let simulation := forwardSimulation σ ρ
  have postfixes := (looksAhead_call inside).postfixed
  have forward := simulation.postfixed (simulation.call simulation.expression)
  apply LooksAhead.eatWhere
  · exact (postfixes.prefixed forward).tower
      (simulation.prefixed (forward.related (Expression.relocate id))) levels
  · intro keyword
    apply inside.bind
    intro condition
    apply (looksAhead_passKeyword _ _).bind
    intro _
    apply inside.bind
    intro consequent
    apply (looksAhead_passKeyword _ _).bind
    intro _
    apply inside.bind
    intro alternative
    exact looksAhead_make _ _

theorem looksAhead_assignment :
    LooksAhead (bound + 1) (assignment expression : Parser σ ρ Expression) :=
  (looksAhead_conditional inside).binary
    ((forwardSimulation σ ρ).conditional (forwardSimulation σ ρ).expression) [.equals]

end Inner

/-- By induction on the tokens that remain, an expression looks ahead as those inside it do. -/
theorem looksAhead_expression (bound : Nat) :
    LooksAhead bound (expression : Parser σ ρ Expression) := by
  induction bound with
  | zero =>
      intro state next value ended few ran
      have atEnd := List.eq_nil_of_length_eq_zero (Nat.le_zero.1 few)
      have fails : expression state = .error .endOfFile state := expressionWithin_atEnd _ atEnd
      rw [fails] at ran
      cases ran
  | succ bound inductionHypothesis =>
      exact (looksAhead_assignment inductionHypothesis).ofAgree
        fun state ended _ => expression_eq_assignment ended

theorem looksAhead_binding (keyword : Token) :
    LooksAhead bound (binding keyword : Parser σ ρ Variable) := by
  apply looksAhead_identifier.bind
  intro name
  apply (looksAhead_identifier.optional _).bind
  intro type
  apply ((looksAhead_expression bound).optional _).bind
  intro value
  exact looksAhead_make _ _

/-- A statement is told by its first token. -/
theorem looksAhead_statement : LooksAhead bound (statement : Parser σ ρ Statement) := by
  apply LooksAhead.eat
  intro found
  cases found with
  | some keyword =>
      apply (looksAhead_expression bound).bind
      intro value
      exact looksAhead_make _ _
  | none =>
      apply LooksAhead.eat
      intro found
      cases found with
      | some keyword =>
          apply (looksAhead_binding keyword).bind
          intro definition
          exact looksAhead_pure _
      | none =>
          apply LooksAhead.eatWhere
          · apply (looksAhead_expression bound).bind
            intro value
            exact looksAhead_pure _
          · intro token
            apply (looksAhead_report _).bind
            intro _
            exact looksAhead_make _ _

/-- Every entry point for a part of a file looks ahead by one token. -/
theorem looksAhead_entry {entry : Entry} (part : entry ≠ .file) :
    LooksAhead bound (entry.parser : Parser σ ρ Node) := by
  cases entry with
  | file => exact absurd rfl part
  | expression => exact (looksAhead_expression bound).bind fun value => looksAhead_pure _
  | statement => exact looksAhead_statement.bind fun value => looksAhead_pure _
  | identifier => exact looksAhead_identifier.bind fun name => looksAhead_pure _

end Parser

/-- Two tokens of lookahead suffice. A part of a file that is parsed from some place gives the same
node and the same reports, and ends in the same place, over all tokens that agree up to the token
under the cursor at the end and, unless this is an end marker, the one after it. -/
theorem Entry.parse_lookahead {σ : Type} [Observer σ] {entry : Entry} (part : entry ≠ .file)
    {tokens tokens' : List Token} {state state' next : Parser.State σ} {node : Node}
    {held held' : List Diagnostic} (kept : state.cursor.tokens = withMarker tokens)
    (kept' : state'.cursor.tokens = withMarker tokens')
    (place : state'.position = state.position) (holds : state.sink = .collect held)
    (holds' : state'.sink = .collect held') (ran : entry.parser state = .ok node next)
    (agree : AgreeBetween state.position next.position (withMarker tokens) (withMarker tokens')) :
    ∃ next' added, entry.parser state' = .ok node next' ∧ next'.position = next.position ∧
      next.sink = .collect (held ++ added) ∧ next'.sink = .collect (held' ++ added) := by
  have ended := TokenCursor.marker_kind kept
  have ended' := TokenCursor.marker_kind kept'
  let bound := max state.cursor.remaining state'.cursor.remaining
  obtain ⟨taken, added, walks, accepts, replays⟩ :=
    Parser.looksAhead_entry part state next node ended (le_max_left _ _ : _ ≤ bound) ran
  rw [holds, Sink.acceptAll?_collect] at accepts
  rw [← kept, ← kept'] at agree
  obtain ⟨last, walks', shows, stops⟩ := walks.along ended ended' place agree
  obtain ⟨next', ran', rfl, sink'⟩ := replays state' last (.collect (held' ++ added)) ended'
    (le_max_right _ _) walks' shows (by rw [holds', Sink.acceptAll?_collect])
  exact ⟨next', added, ran', stops, (Option.some.inj accepts).symm, sink'⟩

/-- A parenthesis is left open before a sign that belongs to the name behind it. What stands before
the parenthesis and behind the name makes no difference. -/
theorem Entry.parse_lookahead_unclosed :
    let opened : List Token := [⟨4, .bracket .openParen, "(", false⟩, ⟨5, .identifier, "a", false⟩,
      ⟨7, .operator .plusPlus, "++", false⟩, ⟨9, .identifier, "b", false⟩]
    let state : Parser.State Unit :=
      ⟨⟨[⟨0, .keyword .letWord, "let", false⟩], opened, Token.eof 10⟩, .collect [], [], ()⟩
    let state' : Parser.State Unit :=
      ⟨⟨[⟨2, .operator .plus, "+", false⟩], opened ++ [⟨10, .bracket .closeParen, ")", false⟩],
        Token.eof 20⟩, .collect [⟨0, 1, .unexpectedToken⟩], [], ()⟩
    ∃ node next next', Entry.expression.parser state = .ok node next ∧
      Entry.expression.parser state' = .ok node next' ∧ next'.position = 3 ∧
      next.sink = .collect [⟨7, 2, .expectedParentheses⟩] ∧
      next'.sink = .collect [⟨0, 1, .unexpectedToken⟩, ⟨7, 2, .expectedParentheses⟩] := by
  intro opened state state'
  obtain ⟨node, next, ran⟩ : ∃ node next, Entry.expression.parser state = .ok node next :=
    ⟨_, _, rfl⟩
  have facts : (Parser.Outcome.state (Entry.expression.parser state)).position = 3 ∧
      (Parser.Outcome.state (Entry.expression.parser state)).sink =
        .collect [⟨7, 2, .expectedParentheses⟩] := by decide +kernel
  rw [ran] at facts
  obtain ⟨stops, sink⟩ : next.position = 3 ∧ next.sink = .collect [⟨7, 2, .expectedParentheses⟩] :=
    facts
  have agree : AgreeBetween 1 3 (withMarker state.cursor.tokens)
      (withMarker state'.cursor.tokens) := by
    refine ⟨fun index start stop => ?_, fun _ => rfl⟩
    interval_cases index <;> rfl
  have kept : state.cursor.tokens = withMarker state.cursor.tokens := rfl
  have kept' : state'.cursor.tokens = withMarker state'.cursor.tokens := rfl
  obtain ⟨next', added, ran', place, sinkOnce, sinkTwice⟩ :=
    Entry.parse_lookahead (by decide) kept kept' rfl rfl rfl ran (stops ▸ agree)
  rw [sink] at sinkOnce
  obtain rfl := Sink.collect.inj sinkOnce
  exact ⟨node, next, next', ran, ran', place.trans stops, sink, sinkTwice⟩

end FrontEnd
