/-
This file compares the three sinks. Dropping the diagnostics changes nothing else about a parse,
and stopping at the first one gives the first one that holding all of them gives.
-/

import FrontEnd.Proofs.Parser.Simulation

namespace FrontEnd

namespace Parser

variable {σ ρ α β γ δ : Type}

/-- The same state with another sink. -/
def State.withSink (state : State σ) (sink : Sink) : State σ := { state with sink := sink }

@[simp] theorem State.withSink_cursor (state : State σ) (sink : Sink) :
    (state.withSink sink).cursor = state.cursor := rfl

/-- The answer of a run without its state. -/
def Outcome.result : Outcome σ ρ α → Except ParseError α
  | .ok value _ => .ok value
  | .error error _ => .error error

/-- The state that a run ends in, whether it fails or not. -/
def Outcome.state : Outcome σ ρ α → State σ ρ
  | .ok _ state => state
  | .error _ state => state

/-- The same run with another view of its value and another sink in its state. -/
def Outcome.through (image : α → β) (sink : Sink) : Outcome σ Sink α → Outcome σ Sink β
  | .ok value state => .ok (image value) (state.withSink sink)
  | .error error state => .error error (state.withSink sink)

/-- A run that holds diagnostics adds some to them. The run that drops them does the same
otherwise, and so does the run that fails fast if none are added. If some are added, it fails
with the first of them. -/
def SinksAgree (image : α → β) (parser : Parser σ Sink α) (parser' : Parser σ Sink β) : Prop :=
  ∀ (state : State σ) (held : List Diagnostic), ∃ added : List Diagnostic,
    (Outcome.state (parser (state.withSink (.collect held)))).sink =
      .collect (held ++ added) ∧
    parser' (state.withSink .ignore) =
      Outcome.through image .ignore (parser (state.withSink (.collect held))) ∧
    (added = [] →
      parser' (state.withSink .failFast) =
        Outcome.through image .failFast (parser (state.withSink (.collect held)))) ∧
    ∀ first later, added = first :: later →
      ∃ next, parser' (state.withSink .failFast) = .error (.reported first) next

/-- A step that never looks at the sink is the same under all of them. -/
theorem SinksAgree.ofBlind {image : α → β} {parser : Parser σ Sink α} {parser' : Parser σ Sink β}
    (blind : ∀ (state : State σ) (sink sink' : Sink), parser' (state.withSink sink') =
      Outcome.through image sink' (parser (state.withSink sink)))
    (keeps : ∀ (state : State σ) (sink : Sink),
      (Outcome.state (parser (state.withSink sink))).sink = sink) :
    SinksAgree image parser parser' := by
  intro state held
  refine ⟨[], ?_, blind .., fun _ => blind .., by simp⟩
  rw [keeps, List.append_nil]

/-- The first part of a sequence decides the sequence when it fails, and adds the first
diagnostics when it does not. -/
theorem SinksAgree.bind {image : α → β} {image' : γ → δ} {first : Parser σ Sink α}
    {first' : Parser σ Sink β} {rest : α → Parser σ Sink γ} {rest' : β → Parser σ Sink δ}
    (firstAgree : SinksAgree image first first')
    (restAgree : ∀ value, SinksAgree image' (rest value) (rest' (image value))) :
    SinksAgree image' (first >>= rest) (first' >>= rest') := by
  intro state held
  obtain ⟨added, holds, ignored, clean, escalated⟩ := firstAgree state held
  cases run : first (state.withSink (.collect held)) with
  | error error after =>
      rw [run] at holds ignored clean
      rw [bind_error run, bind_error ignored]
      refine ⟨added, holds, rfl, fun none => bind_error (clean none), fun one more some => ?_⟩
      obtain ⟨next, stopped⟩ := escalated one more some
      exact ⟨next, bind_error stopped⟩
  | ok value after =>
      rw [run] at holds ignored clean
      rw [bind_ok run, bind_ok ignored]
      have same : after.withSink (.collect (held ++ added)) = after := by rw [← holds]; rfl
      obtain ⟨added', holds', ignored', clean', escalated'⟩ :=
        restAgree value after (held ++ added)
      rw [same] at holds' ignored' clean'
      refine ⟨added ++ added', by rw [← List.append_assoc]; exact holds', ignored', ?_, ?_⟩
      · intro none
        obtain ⟨noneFirst, noneRest⟩ := List.append_eq_nil_iff.1 none
        rw [bind_ok (clean noneFirst)]
        exact clean' noneRest
      · intro one more some
        cases added with
        | nil =>
            rw [bind_ok (clean rfl)]
            exact escalated' one more some
        | cons earliest later =>
            obtain ⟨rfl, -⟩ := List.cons.inj some
            obtain ⟨next, stopped⟩ := escalated earliest later rfl
            exact ⟨next, bind_error stopped⟩

/-- A report adds one diagnostic, which fails the run that fails fast. -/
theorem SinksAgree.report (diagnostic : Diagnostic) :
    SinksAgree id (Parser.report diagnostic : Parser σ Sink Unit) (Parser.report diagnostic) := by
  intro state held
  refine ⟨[diagnostic], rfl, rfl, by simp, fun first later same => ?_⟩
  obtain ⟨rfl, -⟩ := List.cons.inj same
  exact ⟨_, rfl⟩

theorem SinksAgree.advance :
    SinksAgree (Token.relocate id) (Parser.advance : Parser σ Sink Token) Parser.advance := by
  refine .ofBlind (fun state sink sink' => ?_) fun state sink => ?_
  all_goals
    simp only [Parser.advance, State.withSink_cursor]
    cases state.cursor.step? <;> rfl

/-- The sink has no part in what is wanted. -/
theorem SinksAgree.eatWhere (wanted : Token → Bool) :
    SinksAgree (Option.map (Token.relocate id))
      (Parser.eatWhere wanted : Parser σ Sink (Option Token)) (Parser.eatWhere wanted) := by
  refine .ofBlind (fun state sink sink' => ?_) fun state sink => ?_
  all_goals
    simp only [Parser.eatWhere, State.withSink_cursor]
    cases state.cursor.step? with
    | none => rfl
    | some step =>
        obtain ⟨token, cursor⟩ := step
        by_cases fits : wanted token = true <;> simp only [fits, if_true] <;> rfl

/-- The sink has no part in what the cursor shows. -/
theorem SinksAgree.look {image : α → β} {view : TokenCursor → α} {view' : TokenCursor → β}
    (moved : ∀ cursor : TokenCursor, view' (cursor.relocate id) = image (view cursor)) :
    SinksAgree image (fun state : State σ => .ok (view state.cursor) state)
      (fun state : State σ => .ok (view' state.cursor) state) := by
  refine .ofBlind (fun state sink sink' => ?_) fun _ _ => rfl
  have same : view' state.cursor = image (view state.cursor) := by
    simpa using moved state.cursor
  simp only [State.withSink_cursor, same]
  rfl

theorem SinksAgree.note (event : Event) :
    SinksAgree id (Parser.note event : Parser σ Sink Unit) (Parser.note (event.relocate id)) := by
  rw [Event.relocate_id]
  exact .ofBlind (fun _ _ _ => rfl) fun _ _ => rfl

theorem SinksAgree.make [Observer σ] {image : α → β} {node : α → Node} {node' : β → Node}
    (moved : ∀ value, node' (image value) = (node value).relocate id) (value : α) :
    SinksAgree image (Parser.make node value : Parser σ Sink α)
      (Parser.make node' (image value)) := by
  refine .ofBlind (fun state sink sink' => ?_) fun _ _ => rfl
  simp only [Parser.make, moved, Node.relocate_id]
  rfl

/-- The sinks agree on every rule of the grammar, since they agree on its primitive steps. -/
def sinkSimulation (σ : Type) [Observer σ] : Simulation id σ σ Sink where
  Rel := SinksAgree
  pure _ _ := .ofBlind (fun _ _ _ => rfl) fun _ _ => rfl
  bind := SinksAgree.bind
  look := SinksAgree.look
  advance := SinksAgree.advance
  eatWhere _ := SinksAgree.eatWhere _
  note := SinksAgree.note
  report := SinksAgree.report
  make := SinksAgree.make

end Parser

/-- A parse that drops its diagnostics gives the tree or the error of the one that holds them, in
the same place. So does a parse that fails fast, unless a diagnostic is held: then it fails with
the first of them. -/
theorem Entry.parse_underSinks {σ : Type} [Observer σ] (entry : Entry) (tokens : List Token)
    (observed : σ) :
    let holding := entry.parse tokens (.collect []) observed
    let dropping := entry.parse tokens .ignore observed
    let failing := entry.parse tokens .failFast observed
    (dropping.result = holding.result ∧ dropping.state.position = holding.state.position) ∧
      match holding.state.sink.held with
      | [] => failing.result = holding.result ∧ failing.state.position = holding.state.position
      | first :: _ => failing.result = .error (.reported first) := by
  intro holding dropping failing
  obtain ⟨added, held, ignored, clean, escalated⟩ :=
    (Parser.sinkSimulation σ).entry entry (Parser.State.start tokens .ignore observed) []
  rw [Node.relocate_id] at ignored clean
  have same : ∀ sink, (holding.through id sink).result = holding.result ∧
      (holding.through id sink).state.position = holding.state.position := by
    intro sink
    cases holding <;> exact ⟨rfl, rfl⟩
  have dropped : dropping = holding.through id .ignore := ignored
  have sinkHeld : holding.state.sink = .collect added := held
  refine ⟨dropped ▸ same .ignore, ?_⟩
  rw [sinkHeld]
  cases added with
  | nil =>
      have failed : failing = holding.through id .failFast := clean rfl
      exact failed ▸ same .failFast
  | cons first later =>
      obtain ⟨next, stopped⟩ := escalated first later rfl
      have failed : failing = .error (.reported first) next := stopped
      exact congrArg Parser.Outcome.result failed

end FrontEnd
