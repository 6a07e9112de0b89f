/-
This file follows one parser through any calls. Its cursor stays among its tokens, every call moves
it as it says, and no call goes on forever.
-/

import FrontEnd.Proofs.Parser.Bounds

namespace FrontEnd

namespace Parser

variable {σ ρ μ α : Type} [Observer σ] [Receiver ρ]

/-- An item of a list with the comma after it. -/
def listItem (item : Parser σ ρ α) : Parser σ ρ α := do
  let value ← item
  separator .closeParen
  return value

/-- A bound is ample at a state when every loop of the grammar gives with it what it gives with the
number of tokens that remain. An expression is then what its rule makes of the expressions inside
it, however deep they are. -/
structure Ample (bound : Nat) (state : State σ ρ) : Prop where
  depth : expressionWithin bound state = expression state
  recursion : expression state = assignment expression state
  assignments (left : Expression) :
    binaryWithin [.equals] (conditional expression) bound left state =
      binaryWithin [.equals] (conditional expression) state.cursor.remaining left state
  operators (operators : List Operator) (tighter : List (List Operator)) (left : Expression) :
    binaryWithin operators (tower (prefixed (postfixed (call expression))) tighter) bound left
        state =
      binaryWithin operators (tower (prefixed (postfixed (call expression))) tighter)
        state.cursor.remaining left state
  signs : prefixedWithin (postfixed (call expression)) bound state =
    prefixed (postfixed (call expression)) state
  calls (receiver : Expression) : callWithin expression bound receiver state =
    callWithin expression state.cursor.remaining receiver state
  arguments : itemsWithin .closeParen (listItem expression) bound state =
    listItems expression state
  parameters : itemsWithin .closeParen (listItem parameter) bound state =
    listItems parameter state
  statements : itemsWithin .closeCurly statement bound state = items .closeCurly statement state
  declarations : declarationsWithin bound state =
    declarationsWithin state.cursor.remaining state

/-- An expression is the same with every bound that is not below the tokens that remain. -/
theorem expression_agree (bound : Nat) :
    AgreeWithin bound (expressionWithin bound : Parser σ ρ Expression) expression := by
  intro state ended few
  exact expressionWithin_agree few le_rfl state ended le_rfl

/-- An expression is what its rule makes of the expressions inside it. -/
theorem expression_eq_assignment {state : State σ ρ} (ended : state.cursor.marker.kind = .eof) :
    expression state = assignment expression state := by
  have bounded : expression state = expressionWithin state.cursor.remaining state := rfl
  cases left : state.cursor.remaining with
  | zero =>
      have atEnd := List.eq_nil_of_length_eq_zero left
      rw [bounded, expressionWithin_atEnd _ atEnd, assignment_atEnd _ atEnd]
  | succ bound =>
      rw [bounded, left]
      exact assignment_agree ((forwardSimulation σ ρ).expressionWithin bound)
        (takesWithin_expressionWithin le_rfl) (expression_agree bound) state ended left.le

/-- A comma behind an item moves the cursor on or leaves it there. -/
theorem listItem_forward {item : Parser σ ρ α} (forward : Forward item) : Forward (listItem item) :=
  forward.bind fun _ => Forward.bind ((forwardSimulation σ ρ).separator _) fun _ _ => .refl

/-- An item takes a token even without its comma. -/
theorem takesWithin_listItem {bound : Nat} {item : Parser σ ρ α} (takes : TakesWithin bound item) :
    TakesWithin bound (listItem item) :=
  takes.bind fun _ => Forward.bind ((forwardSimulation σ ρ).separator _) fun _ _ => .refl

/-- A bound is ample when it is not below the tokens that remain. -/
theorem ample_of_remaining_le {state : State σ ρ} (ended : state.cursor.marker.kind = .eof)
    {bound : Nat} (enough : state.cursor.remaining ≤ bound) : Ample bound state := by
  let simulation := forwardSimulation σ ρ
  have inner : Forward (expression : Parser σ ρ Expression) := simulation.expression
  have postfixes : Forward (postfixed (call expression) : Parser σ ρ Expression) :=
    simulation.postfixed (simulation.call simulation.expression)
  have operands (tighter : List (List Operator)) :
      Forward (tower (prefixed (postfixed (call expression))) tighter : Parser σ ρ Expression) :=
    simulation.tower (simulation.prefixed (postfixes.related (Expression.relocate id))) tighter
  have conditions : Forward (conditional expression : Parser σ ρ Expression) :=
    simulation.conditional simulation.expression
  have takes := takesWithin_expression (σ := σ) (ρ := ρ) state.cursor.remaining
  exact {
    depth := expressionWithin_agree enough le_rfl state ended le_rfl
    recursion := expression_eq_assignment ended
    assignments _ :=
      binaryWithin_agree conditions (.refl _ _) enough le_rfl state ended le_rfl
    operators _ tighter _ :=
      binaryWithin_agree (operands tighter) (.refl _ _) enough le_rfl state ended le_rfl
    signs := prefixedWithin_agree postfixes (.refl _ _) enough le_rfl state ended le_rfl
    calls _ := callWithin_agree inner takes (.refl _ _) (Nat.le_succ _) enough le_rfl state ended
      le_rfl
    arguments := itemsWithin_agree (listItem_forward inner) (takesWithin_listItem takes)
      (.refl _ _) enough le_rfl state ended le_rfl
    parameters := itemsWithin_agree (listItem_forward simulation.parameter)
      (takesWithin_listItem (takesWithin_parameter _)) (.refl _ _) enough le_rfl state ended le_rfl
    statements := itemsWithin_agree simulation.statement (takesWithin_statement _) (.refl _ _)
      enough le_rfl state ended le_rfl
    declarations := declarationsWithin_agree enough le_rfl state ended le_rfl }

/-- The rule of signs after their operands with a look at the next token that could fail. -/
def peekingPostfixed (operand : Parser σ ρ Expression) : Parser σ ρ Expression := do
  let value ← operand
  let isSign (token : Token) : Bool :=
    postfixSigns.any fun operator => token.kind = .operator operator
  if ← checkWhere isSign then
    let next ← peekAt 1
    if beginsOperand next.kind then
      return value
    else
      let token ← advance
      let meaning ← operation .after token
      makeExpression (.postfixed value meaning token)
  else
    return value

/-- The look past a sign never fails, since a sign is no end marker. -/
theorem postfixed_eq_peeking (operand : Parser σ ρ Expression) :
    postfixed operand = peekingPostfixed operand := by
  refine congrArg (operand >>= ·) (funext fun value => funext fun state => ?_)
  let isSign (token : Token) : Bool :=
    postfixSigns.any fun operator => token.kind = .operator operator
  have place : (cursor : Parser σ ρ TokenCursor) state = .ok state.cursor state := rfl
  show (cursor >>= _) state = (checkWhere isSign >>= _) state
  rw [bind_ok place]
  cases checked : state.cursor.hasNext && isSign state.cursor.current with
  | false =>
      have sees : (checkWhere isSign : Parser σ ρ Bool) state = .ok false state :=
        congrArg (EStateM.Result.ok · state) checked
      have stays : closesOperand state.cursor = false := by
        rw [closesOperand]
        exact Bool.and_eq_false_imp.2 fun signed => by rw [checked] at signed; cases signed
      rw [bind_ok sees, stays]
      rfl
  | true =>
      have sees : (checkWhere isSign : Parser σ ρ Bool) state = .ok true state :=
        congrArg (EStateM.Result.ok · state) checked
      have goesOn : state.cursor.hasNext = true := (Bool.and_eq_true_iff.1 checked).1
      have peeks : (peekAt 1 : Parser σ ρ Token) state = .ok state.cursor.following state := by
        rw [peekAt, TokenCursor.peekAt?_following goesOn]
      have closes : closesOperand state.cursor = !beginsOperand state.cursor.following.kind := by
        rw [closesOperand]
        exact (congrArg (· && _) checked).trans (Bool.true_and _)
      rw [bind_ok sees, closes]
      show _ = (peekAt 1 >>= _) state
      rw [bind_ok peeks]
      cases beginsOperand state.cursor.following.kind <;> rfl

/-- Whether a call took the current token, by its answer. -/
def Call.takes : Call μ → Except ParseError Reply → Bool
  | .advance, .ok _ => true
  | .eat _, .ok (.token found) => found.isSome
  | .eatAny _, .ok (.truth found) => found
  | _, _ => false

/-- How a call moves the cursor. A parse moves it forward, by one token at least when it gives a
part of a file. Any other call moves it by the token that it takes. -/
def Call.Moves (call : Call μ) (before : State σ ρ)
    (answer : Except ParseError Reply × State σ ρ) : Prop :=
  match call with
  | .parse entry => before.position ≤ answer.2.position ∧
      (entry ≠ .file → answer.1.isOk → before.position < answer.2.position)
  | _ => answer.2.position = before.position + (call.takes answer.1).toNat

/-- The answers to calls, each of which moved the cursor on from where the one before left it. -/
inductive Advances :
    State σ ρ → List (Call μ) → List (Except ParseError Reply × State σ ρ) → Prop
  | nil (state : State σ ρ) : Advances state [] []
  | cons {call : Call μ} {before : State σ ρ} {answer : Except ParseError Reply × State σ ρ}
      {calls : List (Call μ)} {answers : List (Except ParseError Reply × State σ ρ)} :
      call.Moves before answer → Advances answer.2 calls answers →
        Advances before (call :: calls) (answer :: answers)

/-- Every part of a file takes a token. -/
theorem takesWithin_entry {entry : Entry} (part : entry ≠ .file) (bound : Nat) :
    TakesWithin bound (entry.parser : Parser σ ρ Node) := by
  cases entry with
  | file => exact absurd rfl part
  | expression => exact (takesWithin_expression bound).bind fun _ _ => .refl
  | statement => exact (takesWithin_statement bound).bind fun _ _ => .refl
  | identifier => exact (takesWithin_identifier bound).bind fun _ _ => .refl

/-- A part of a file that succeeds moves the cursor. -/
theorem position_lt_of_entry {entry : Entry} (part : entry ≠ .file) {state next : State σ ρ}
    {node : Node} (ended : state.cursor.marker.kind = .eof)
    (ran : entry.parser state = .ok node next) : state.position < next.position := by
  have related : Forward (entry.parser : Parser σ ρ Node) := (forwardSimulation σ ρ).entry entry
  have fewer := takesWithin_entry part _ state next node ended le_rfl ran
  have sum := (related.reaches ran).position_add
  show state.cursor.position < next.cursor.position
  omega

section Calls

variable [TokenMatcher μ]

/-- Every call moves forward, whatever it answers. -/
theorem Call.forward (call : Call μ) : Forward (call.perform : Parser σ ρ Reply) := by
  let simulation := forwardSimulation σ ρ
  cases call with
  | hasNext => exact Forward.bind simulation.hasNext fun _ _ => .refl
  | peekAt offset =>
      refine Forward.bind (fun state => ?_) fun _ _ => .refl
      unfold Parser.peekAt
      cases state.cursor.peekAt? offset <;> exact .refl
  | advance => exact forward_advance.bind fun _ _ => .refl
  | check matcher => exact Forward.bind (fun _ => .refl) fun _ _ => .refl
  | eat matcher => exact (forward_eatWhere _).bind fun _ _ => .refl
  | eatAny matchers => exact (forward_eatWhere _).bind fun _ _ => .refl
  | operation fixity token =>
      exact Forward.bind (simulation.operation fixity token) fun _ _ => .refl
  | parse entry => exact Forward.bind (simulation.entry entry) fun _ _ => .refl

/-- A call answers with the result and the state of its run. -/
theorem Call.answer_eq (call : Call μ) (state : State σ ρ) : call.answer state =
    (Outcome.result (call.perform state), Outcome.state (call.perform state)) := by
  rw [Call.answer, EStateM.run]
  cases call.perform state <;> rfl

/-- Every call leads the cursor forward. -/
theorem Call.reaches (call : Call μ) (state : State σ ρ) :
    state.cursor.Reaches (call.answer state).2.cursor := by
  rw [call.answer_eq]
  exact call.forward state

/-- A call that performs one step and shows what it gave answers as the step does. -/
theorem Call.answer_view {call : Call μ} {step : Parser σ ρ α} {view : α → Reply}
    (performs : call.perform = step >>= fun value => pure (view value)) (state : State σ ρ) :
    call.answer state =
      ((Outcome.result (step state)).map view, Outcome.state (step state)) := by
  rw [call.answer_eq, performs]
  cases ran : step state with
  | ok value next =>
      rw [bind_ok ran]
      rfl
  | error error next =>
      rw [bind_error ran]
      rfl

/-- Every call moves the cursor as it says, from any place among tokens that end in a marker. -/
theorem Call.moves (call : Call μ) {state : State σ ρ} (ended : state.cursor.marker.kind = .eof) :
    call.Moves state (call.answer state) := by
  cases call with
  | hasNext => rfl
  | peekAt offset =>
      have performs : (Call.peekAt offset : Call μ).perform =
          (Parser.peekAt offset : Parser σ ρ Token) >>=
            fun found => pure (Reply.token (some found)) := rfl
      rw [answer_view performs, Parser.peekAt]
      cases state.cursor.peekAt? offset <;> rfl
  | advance =>
      have performs : (Call.advance : Call μ).perform = (Parser.advance : Parser σ ρ Token) >>=
          fun found => pure (Reply.token (some found)) := rfl
      rw [answer_view performs, Parser.advance]
      cases stepped : state.cursor.step? with
      | none => rfl
      | some step => exact (TokenCursor.step?_sound stepped).2.1
  | check matcher => rfl
  | eat matcher =>
      have performs : (Call.eat matcher).perform =
          (eatWhere (TokenMatcher.accepts matcher) : Parser σ ρ (Option Token)) >>=
            fun found => pure (Reply.token found) := rfl
      obtain ⟨found, next, ran, moved⟩ := eatWhere_moves (TokenMatcher.accepts matcher) state
      rw [answer_view performs, ran]
      exact moved
  | eatAny matchers =>
      let accepted (token : Token) : Bool := matchers.any (TokenMatcher.accepts · token)
      have performs : (Call.eatAny matchers).perform =
          (eatWhere accepted : Parser σ ρ (Option Token)) >>=
            fun found => pure (Reply.truth found.isSome) := rfl
      obtain ⟨found, next, ran, moved⟩ := eatWhere_moves accepted state
      rw [answer_view performs, ran]
      exact moved
  | operation fixity token =>
      have performs : (Call.operation fixity token : Call μ).perform =
          (Parser.operation fixity token : Parser σ ρ Operation) >>=
            fun meaning => pure (Reply.operation meaning) := rfl
      rw [answer_view performs]
      exact operation_stays fixity token state
  | parse entry =>
      refine ⟨(Call.reaches _ state).position_le, fun part succeeded => ?_⟩
      have performs : (Call.parse entry : Call μ).perform =
          (entry.parser : Parser σ ρ Node) >>= fun node => pure (Reply.node node) := rfl
      rw [answer_view performs] at succeeded ⊢
      cases ran : (entry.parser : Parser σ ρ Node) state with
      | error error next =>
          rw [ran] at succeeded
          cases succeeded
      | ok node next => exact position_lt_of_entry part ended ran

/-- One call after the other keeps the cursor sound, since each leads it forward. -/
theorem session_of_sound {tokens : List Token} (calls : List (Call μ)) {start : State σ ρ}
    (sound : start.cursor.Sound tokens) :
    (∀ state ∈ start :: (session start calls).map Prod.snd, Placed tokens state) ∧
      Advances start calls (session start calls) := by
  induction calls generalizing start with
  | nil => exact ⟨by simpa [session] using placed_of_sound sound, .nil start⟩
  | cons call calls inductionHypothesis =>
      have ended : start.cursor.marker.kind = .eof := by simpa [Token.isEof] using sound.marker
      obtain ⟨placed, advances⟩ := inductionHypothesis (sound.reaches (call.reaches start))
      exact ⟨List.forall_mem_cons.2 ⟨placed_of_sound sound, placed⟩,
        .cons (call.moves ended) advances⟩

/-- Whatever the tokens and the calls, also after failures, the cursor stays among the tokens up to
the first end marker and moves as each call says. Nothing goes on forever: wherever a parse stands,
a part of a file takes a token, and the bounds on the loops are ample. -/
theorem session_progresses (tokens : List Token) (sink : ρ) (observed : σ)
    (calls : List (Call μ)) :
    let start := State.start tokens sink observed
    ((∀ state ∈ start :: (session start calls).map Prod.snd, Placed (withMarker tokens) state) ∧
      Advances start calls (session start calls)) ∧
    (∀ state : State σ ρ, state.cursor.marker.isEof = true →
      (∀ entry next node, entry ≠ Entry.file → entry.parser state = .ok node next →
        state.position < next.position) ∧
      ∀ bound, state.cursor.remaining ≤ bound → Ample bound state) ∧
    ∀ operand : Parser σ ρ Expression, postfixed operand = peekingPostfixed operand := by
  intro start
  refine ⟨session_of_sound calls (TokenCursor.sound_ofTokens tokens), ?_, postfixed_eq_peeking⟩
  intro state marked
  have ended : state.cursor.marker.kind = .eof := by simpa [Token.isEof] using marked
  refine ⟨fun entry next node part ran => ?_,
    fun bound enough => ample_of_remaining_le ended enough⟩
  exact position_lt_of_entry part ended ran

end Calls

/-- The second report finds no room, and the calls after this failure go on at the marker in the
middle of the tokens. -/
theorem session_stopsAtMarker :
    let tokens : List Token :=
      [⟨0, .symbol .comma, ",", false⟩, ⟨1, .symbol .comma, ",", false⟩, Token.eof 2,
        ⟨2, .bracket .closeParen, ")", false⟩]
    let start : State Unit Receiver.Limited := .start tokens ⟨1⟩ ()
    let calls : List (Call (Token → Bool)) := [.parse .statement, .parse .statement,
      .eat fun token => token.lexeme = ")", .parse .statement, .peekAt (-1)]
    Advances start calls (session start calls) ∧
      (session start calls).map (fun answer => (answer.1.isOk, answer.2.position)) =
        [(true, 1), (false, 2), (true, 2), (false, 2), (true, 2)] ∧
      Ample 9 start := by
  intro tokens start calls
  obtain ⟨⟨-, advances⟩, always, -⟩ := session_progresses tokens (Receiver.Limited.mk 1) () calls
  exact ⟨advances, by decide +kernel, (always start rfl).2 9 (by decide)⟩

end Parser

end FrontEnd
