/-
This file follows parses to their end, whether they succeed or fail. What a rule ensures holds of
its value, and no operator is reported to mean nothing on the way.
-/

import FrontEnd.Proofs.Parser.Forward
import FrontEnd.Proofs.Parser.Recovering

namespace FrontEnd

namespace Parser

variable {σ ρ α β : Type} [Receiver ρ]

/-- A run that reports no operator without a meaning, from one state to another one. Its receiver is
handed the reports and nothing else. -/
structure Clean (state next : State σ ρ) : Prop where
  reaches : state.cursor.Reaches next.cursor
  handed : ∃ added, next.reports = state.reports ++ added ∧
    next.sink = Receiver.handAll state.sink added ∧
    ∀ diagnostic ∈ added, diagnostic.code ≠ .invalidOperator

/-- A run that only moves the cursor reports nothing. -/
theorem Clean.ofReaches {state next : State σ ρ} (reaches : state.cursor.Reaches next.cursor)
    (log : next.log = state.log) (sink : next.sink = state.sink) : Clean state next where
  reaches := reaches
  handed := ⟨[], by rw [State.reports, log, List.append_nil, State.reports], sink, by simp⟩

/-- Two clean runs after each other are clean. -/
theorem Clean.trans {first second third : State σ ρ} (before : Clean first second)
    (after : Clean second third) : Clean first third where
  reaches := before.reaches.trans after.reaches
  handed := by
    obtain ⟨added, noted, sink, harmless⟩ := before.handed
    obtain ⟨more, noted', sink', harmless'⟩ := after.handed
    refine ⟨added ++ more, by rw [noted', noted, List.append_assoc], ?_,
      List.forall_mem_append.2 ⟨harmless, harmless'⟩⟩
    rw [Receiver.handAll_append, ← sink, sink']

/-- An outcome meets a condition when its value and the tokens left do, or when it is a failure.
No operator without a meaning is reported on the way, and none makes the receiver raise an error. -/
inductive Meets (state : State σ ρ) (condition : α → List Token → Prop) : Outcome σ ρ α → Prop
  | ok {value : α} {next : State σ ρ} (clean : Clean state next)
      (holds : condition value next.cursor.rest) : Meets state condition (.ok value next)
  | error {error : ParseError} {next : State σ ρ} (clean : Clean state next)
      (harmless : ∀ raised, error = .reported raised → ∃ (between : ρ) (diagnostic : Diagnostic),
        Receiver.accept diagnostic between = .error raised next.sink ∧
          diagnostic.code ≠ .invalidOperator) :
      Meets state condition (.error error next)

/-- A run that meets its condition still does after a clean one. -/
theorem Meets.after {state between : State σ ρ} {condition : α → List Token → Prop}
    {outcome : Outcome σ ρ α} (clean : Clean state between)
    (meets : Meets between condition outcome) : Meets state condition outcome := by
  cases meets with
  | ok more holds => exact .ok (clean.trans more) holds
  | error more harmless => exact .error (clean.trans more) harmless

/-- Every run that meets a condition is clean, also one that fails. -/
theorem Meets.clean {state : State σ ρ} {condition : α → List Token → Prop}
    {outcome : Outcome σ ρ α}
    (meets : Meets state condition outcome) : Clean state outcome.state := by
  cases meets with
  | ok clean _ => exact clean
  | error clean _ => exact clean

/-- A parser ensures a condition when every run from some tokens meets it. -/
def Ensures (parser : Parser σ ρ α) (before : List Token) (condition : α → List Token → Prop) :
    Prop :=
  ∀ state : State σ ρ, state.cursor.marker.kind = .eof → state.cursor.rest = before →
    Meets state condition (parser state)

section Combining

variable {parser : Parser σ ρ α} {before : List Token} {condition : α → List Token → Prop}

/-- The second part may assume what the first one ensures, and that it has fewer tokens or as
many. -/
theorem Ensures.bind {rest : α → Parser σ ρ β} {condition' : β → List Token → Prop}
    (ensures : Ensures parser before condition)
    (ensuresRest : ∀ value middle, middle.length ≤ before.length → condition value middle →
      Ensures (rest value) middle condition') : Ensures (parser >>= rest) before condition' := by
  rintro state ended rfl
  have meets := ensures state ended rfl
  cases ran : parser state with
  | ok value next =>
      rw [ran] at meets
      rw [bind_ok ran]
      cases meets with
      | ok clean holds =>
          have marker : next.cursor.marker.kind = .eof := clean.reaches.marker ▸ ended
          exact (ensuresRest value _ clean.reaches.remaining_le holds next marker rfl).after clean
  | error error next =>
      rw [ran] at meets
      rw [bind_error ran]
      cases meets with
      | error clean harmless => exact .error clean harmless

/-- What ensures a condition ensures a weaker one. -/
theorem Ensures.mono {condition' : α → List Token → Prop}
    (ensures : Ensures parser before condition)
    (weaker : ∀ value after, condition value after → condition' value after) :
    Ensures parser before condition' := by
  intro state ended starts
  have meets := ensures state ended starts
  generalize parser state = outcome at meets ⊢
  cases meets with
  | ok clean holds => exact .ok clean (weaker _ _ holds)
  | error clean harmless => exact .error clean harmless

/-- A step that moves nothing but the cursor ensures what it gives quietly. -/
theorem Quiet.ensures (quiet : Quiet parser before condition)
    (silent : ∀ state : State σ ρ, Meets state (fun _ _ => True) (parser state)) :
    Ensures parser before condition := by
  intro state ended starts
  have meets := silent state
  cases ran : parser state with
  | ok value next =>
      rw [ran] at meets
      cases meets with
      | ok clean _ => exact .ok clean (quiet state next value ended starts ran).1
  | error error next =>
      rw [ran] at meets
      cases meets with
      | error clean harmless => exact .error clean harmless

theorem ensures_pure {value : α} (holds : condition value before) :
    Ensures (pure value : Parser σ ρ α) before condition := by
  rintro state - rfl
  exact .ok (.ofReaches .refl rfl rfl) holds

theorem Ensures.map {view : α → β} {condition' : β → List Token → Prop}
    (ensures : Ensures parser before condition)
    (weaker : ∀ value after, condition value after → condition' (view value) after) :
    Ensures (parser >>= fun value => pure (view value)) before condition' :=
  ensures.bind fun value middle _ holds => ensures_pure (weaker value middle holds)

end Combining

section Steps

theorem silent_look (view : TokenCursor → α) (state : State σ ρ) :
    Meets state (fun _ _ => True) (.ok (view state.cursor) state) :=
  .ok (.ofReaches .refl rfl rfl) trivial

theorem silent_eatWhere (wanted : Token → Bool) (state : State σ ρ) :
    Meets state (fun _ _ => True) ((eatWhere wanted : Parser σ ρ (Option Token)) state) := by
  have reaches := forward_eatWhere wanted state
  unfold eatWhere at reaches ⊢
  cases stepped : state.cursor.step? with
  | none => exact .ok (.ofReaches .refl rfl rfl) trivial
  | some step =>
      rw [stepped] at reaches
      by_cases fits : wanted step.1 = true
      · simp only [fits, if_true] at reaches ⊢
        exact .ok (.ofReaches reaches rfl rfl) trivial
      · simp only [fits, Bool.false_eq_true, if_false]
        exact .ok (.ofReaches .refl rfl rfl) trivial

theorem silent_advance (state : State σ ρ) :
    Meets state (fun _ _ => True) ((advance : Parser σ ρ Token) state) := by
  have reaches := forward_advance state
  unfold advance at reaches ⊢
  cases stepped : state.cursor.step? with
  | none => exact .error (.ofReaches .refl rfl rfl) (by simp)
  | some step =>
      rw [stepped] at reaches
      exact .ok (.ofReaches reaches rfl rfl) trivial

/-- The token that is taken has the kind and was the first one. -/
theorem ensures_eat (kind : TokenKind) (before : List Token) :
    Ensures (eat kind : Parser σ ρ (Option Token)) before fun found after =>
      match found with
      | some token => token.kind = kind ∧ before = token :: after
      | none => after = before ∧ (kind ≠ .eof → kindAhead before ≠ kind) :=
  (quiet_eat kind before).ensures (silent_eatWhere _)

/-- The token that is taken is one of the operators and was the first token. -/
theorem ensures_eatOneOf (operators : List Operator) (before : List Token) :
    Ensures (eatOneOf operators : Parser σ ρ (Option Token)) before fun found after =>
      match found with
      | some token => (∃ sign ∈ operators, token.kind = .operator sign) ∧ before = token :: after
      | none => after = before ∧
          ∀ sign, kindAhead before = .operator sign → sign ∉ operators :=
  (quiet_eatOneOf operators before).ensures (silent_eatWhere _)

/-- No end marker is taken. -/
theorem ensures_advance (before : List Token) :
    Ensures (advance : Parser σ ρ Token) before fun token after =>
      token.kind ≠ .eof ∧ before = token :: after :=
  (quiet_advance before).ensures silent_advance

theorem ensures_remaining (before : List Token) :
    Ensures (remaining : Parser σ ρ Nat) before
      fun value after => value = before.length ∧ after = before :=
  (quiet_remaining before).ensures (silent_look _)

theorem ensures_current (before : List Token) :
    Ensures (current : Parser σ ρ Token) before fun _ after => after = before :=
  ((quiet_current before).ensures (silent_look _)).mono fun _ _ shown => shown.1

theorem ensures_hasNext (before : List Token) :
    Ensures (hasNext : Parser σ ρ Bool) before fun _ after => after = before :=
  ((quiet_hasNext before).ensures (silent_look _)).mono fun _ _ shown => shown.1

theorem ensures_beforeClose (close : Bracket) (before : List Token) :
    Ensures (beforeClose close : Parser σ ρ Bool) before fun _ after => after = before :=
  ((quiet_beforeClose close before).ensures
    (silent_look fun cursor => cursor.hasNext && cursor.current.kind != .bracket close)).mono
      fun _ _ shown => shown.1

variable {before : List Token}

/-- The cursor stands before the tokens that are left. -/
theorem ensures_cursor {use : TokenCursor → Parser σ ρ α} {condition : α → List Token → Prop}
    (ensures : ∀ cursor : TokenCursor, cursor.marker.kind = .eof → cursor.rest = before →
      Ensures (use cursor) before condition) : Ensures (cursor >>= use) before condition :=
  fun state ended starts => ensures state.cursor ended starts state ended starts

/-- A note that is no report takes no token. -/
theorem ensures_note {event : Event} (silent : event.diagnostic? = none) :
    Ensures (note event : Parser σ ρ Unit) before fun _ after => after = before := by
  rintro state - rfl
  have noted := state.reports_note event
  rw [silent] at noted
  exact .ok ⟨.refl, [], noted, rfl, by simp⟩ rfl

/-- A report of anything else is harmless, whether the receiver takes it or not. -/
theorem ensures_report {diagnostic : Diagnostic} (harmless : diagnostic.code ≠ .invalidOperator) :
    Ensures (report diagnostic : Parser σ ρ Unit) before fun _ after => after = before := by
  rintro state - rfl
  have noted := state.reports_note (.reported diagnostic)
  have only : ∀ other ∈ [diagnostic], other.code ≠ .invalidOperator := by simpa using harmless
  cases answer : Receiver.accept diagnostic state.sink with
  | ok _ sink =>
      rw [report_of_ok answer]
      have handed : sink = Receiver.handAll state.sink [diagnostic] := by
        rw [Receiver.handAll_singleton, Receiver.hand, answer]
      exact .ok ⟨.refl, [diagnostic], noted, handed, only⟩ rfl
  | error raised sink =>
      rw [report_of_error answer]
      have handed : sink = Receiver.handAll state.sink [diagnostic] := by
        rw [Receiver.handAll_singleton, Receiver.hand, answer]
      refine .error ⟨.refl, [diagnostic], noted, handed, only⟩ fun other same => ?_
      obtain rfl := ParseError.reported.inj same
      exact ⟨state.sink, diagnostic, answer, harmless⟩

/-- A sign with a meaning in its place is never reported. -/
theorem ensures_operation {fixity : Fixity} {token : Token} {meaning : Operation}
    (means : token.operation? fixity = some meaning) :
    Ensures (operation fixity token : Parser σ ρ Operation) before fun found after =>
      found = meaning ∧ after = before := by
  refine (quiet_operation means before).ensures fun state => ?_
  rw [operation, means]
  exact .ok (.ofReaches .refl rfl rfl) trivial

/-- Making a node takes no token and reports nothing. -/
theorem ensures_make [Observer σ] {node : α → Node} {value : α}
    {condition : α → List Token → Prop} (holds : condition value before) :
    Ensures (make node value : Parser σ ρ α) before condition := by
  rintro state - rfl
  exact .ok (.ofReaches .refl rfl rfl) holds

/-- A node made of what a parser gives. -/
theorem Ensures.make [Observer σ] {parser : Parser σ ρ α} {node : β → Node} {view : α → β}
    {condition : α → List Token → Prop} {condition' : β → List Token → Prop}
    (ensures : Ensures parser before condition)
    (weaker : ∀ value after, condition value after → condition' (view value) after) :
    Ensures (parser >>= fun value => Parser.make node (view value)) before condition' :=
  ensures.bind fun value middle _ holds => ensures_make (weaker value middle holds)

/-- A made node goes on as it is. -/
theorem Ensures.afterMake [Observer σ] {node : α → Node} {value : α} {rest : α → Parser σ ρ β}
    {condition : β → List Token → Prop} (ensures : Ensures (rest value) before condition) :
    Ensures (Parser.make node value >>= rest) before condition := by
  have made : Ensures (Parser.make node value : Parser σ ρ α) before
      fun value' after => value' = value ∧ after = before := ensures_make ⟨rfl, rfl⟩
  apply made.bind
  rintro _ _ - ⟨rfl, rfl⟩
  exact ensures

end Steps

end Parser

end FrontEnd
