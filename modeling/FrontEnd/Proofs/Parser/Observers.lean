/-
This file compares observers. What the observer of a parse is told makes no difference to anything
else about the parse.
-/

import FrontEnd.Proofs.Parser.Sinks

namespace FrontEnd

namespace Parser

variable {σ τ ρ α β γ δ : Type}

/-- States are told apart only by what their observers know. -/
structure State.Alike (state : State σ ρ) (state' : State τ ρ) : Prop where
  cursor : state.cursor = state'.cursor
  sink : state.sink = state'.sink
  log : state.log = state'.log

/-- Runs agree when they give the same, up to a view of it, and end in states that only their
observers tell apart. -/
inductive Outcome.SameUpTo (image : α → β) : Outcome σ ρ α → Outcome τ ρ β → Prop
  | ok {state : State σ ρ} {state' : State τ ρ} (value : α) (alike : state.Alike state') :
      SameUpTo image (.ok value state) (.ok (image value) state')
  | error {state : State σ ρ} {state' : State τ ρ} (error : ParseError)
      (alike : state.Alike state') : SameUpTo image (.error error state) (.error error state')

/-- Parsers are blind to their observers when all their runs from alike states agree. -/
def Blind (image : α → β) (parser : Parser σ ρ α) (parser' : Parser τ ρ β) : Prop :=
  ∀ (state : State σ ρ) (state' : State τ ρ), state.Alike state' →
    Outcome.SameUpTo image (parser state) (parser' state')

/-- Sequences are blind when their parts are. -/
theorem Blind.bind {image : α → β} {image' : γ → δ} {first : Parser σ ρ α}
    {first' : Parser τ ρ β} {rest : α → Parser σ ρ γ} {rest' : β → Parser τ ρ δ}
    (firstBlind : Blind image first first')
    (restBlind : ∀ value, Blind image' (rest value) (rest' (image value))) :
    Blind image' (first >>= rest) (first' >>= rest') := by
  intro state state' start
  have agree := firstBlind state state' start
  generalize found : first state = outcome at agree
  generalize found' : first' state' = outcome' at agree
  cases agree with
  | @ok next next' value alike =>
      rw [bind_ok found, bind_ok found']
      exact restBlind value next next' alike
  | error error alike =>
      rw [bind_error found, bind_error found']
      exact .error error alike

/-- Looking at the cursor shows the same of the same cursor. -/
theorem Blind.look {image : α → β} {view : TokenCursor → α} {view' : TokenCursor → β}
    (shows : ∀ cursor : TokenCursor, view' (cursor.relocate id) = image (view cursor)) :
    Blind image (fun state : State σ ρ => .ok (view state.cursor) state)
      (fun state : State τ ρ => .ok (view' state.cursor) state) := by
  intro state state' start
  have same : view' state.cursor = image (view state.cursor) := by
    simpa using shows state.cursor
  simp only [← start.cursor, same]
  exact .ok _ start

theorem Blind.advance :
    Blind (Token.relocate id) (Parser.advance : Parser σ ρ Token)
      (Parser.advance : Parser τ ρ Token) := by
  intro state state' start
  simp only [Parser.advance, ← start.cursor]
  cases state.cursor.step? with
  | none => exact .error .endOfFile start
  | some step => exact .ok step.1 ⟨rfl, start.sink, start.log⟩

/-- The observer has no part in what is wanted. -/
theorem Blind.eatWhere (wanted : Token → Bool) :
    Blind (Option.map (Token.relocate id)) (Parser.eatWhere wanted : Parser σ ρ (Option Token))
      (Parser.eatWhere wanted : Parser τ ρ (Option Token)) := by
  intro state state' start
  simp only [Parser.eatWhere, ← start.cursor]
  cases state.cursor.step? with
  | none => exact .ok none start
  | some step =>
      by_cases fits : wanted step.1
      · simp only [fits, if_true]
        exact .ok (some step.1) ⟨rfl, start.sink, start.log⟩
      · simp only [fits, Bool.false_eq_true, if_false]
        exact .ok none start

theorem Blind.note (event : Event) :
    Blind id (Parser.note event : Parser σ ρ Unit)
      (Parser.note (event.relocate id) : Parser τ ρ Unit) := by
  intro state state' start
  rw [Event.relocate_id]
  exact .ok () ⟨start.cursor, start.sink, congrArg (· ++ [event]) start.log⟩

/-- Making a node is the only step that observers see, and it shows them nothing of a parse. -/
theorem Blind.make [Observer σ] [Observer τ] {image : α → β} {node : α → Node}
    {node' : β → Node} (value : α) :
    Blind image (Parser.make node value : Parser σ ρ α)
      (Parser.make node' (image value) : Parser τ ρ β) :=
  fun _ _ start => .ok value ⟨start.cursor, start.sink, start.log⟩

/-- A receiver that is the same answers the same. -/
theorem Blind.report [Receiver ρ] (diagnostic : Diagnostic) :
    Blind id (Parser.report diagnostic : Parser σ ρ Unit)
      (Parser.report (diagnostic.relocate id) : Parser τ ρ Unit) := by
  intro state state' start
  have log := congrArg (· ++ [Event.reported diagnostic]) start.log
  cases answer : Receiver.accept diagnostic state.sink with
  | ok _ sink =>
      rw [report_of_ok answer, report_of_ok (start.sink ▸ answer)]
      exact .ok () ⟨start.cursor, rfl, log⟩
  | error raised sink =>
      rw [report_of_error answer, report_of_error (start.sink ▸ answer)]
      exact .error (.reported raised) ⟨start.cursor, rfl, log⟩

/-- Every rule of the grammar is blind to its observer, since the primitive steps are. -/
def blindSimulation (σ τ ρ : Type) [Observer σ] [Observer τ] [Receiver ρ] :
    Simulation id σ τ ρ where
  Rel := Blind
  pure _ value := fun _ _ start => .ok value start
  bind := Blind.bind
  look := Blind.look
  advance := Blind.advance
  eatWhere _ := Blind.eatWhere _
  note := Blind.note
  report := Blind.report
  make _ := Blind.make

end Parser

/-- Runs agree when they give the same result, in the same place, with the same diagnostics and the
same reports noted on the way. -/
structure Parser.Outcome.Agrees {σ τ ρ α : Type} (outcome : Parser.Outcome σ ρ α)
    (outcome' : Parser.Outcome τ ρ α) : Prop where
  result : outcome.result = outcome'.result
  position : outcome.state.position = outcome'.state.position
  sink : outcome.state.sink = outcome'.state.sink
  log : outcome.state.log = outcome'.state.log

/-- Runs that only their observers tell apart agree. -/
theorem Parser.Outcome.SameUpTo.agrees {σ τ ρ α : Type} {outcome : Parser.Outcome σ ρ α}
    {outcome' : Parser.Outcome τ ρ α} (same : Parser.Outcome.SameUpTo id outcome outcome') :
    outcome'.Agrees outcome := by
  cases same with
  | ok value alike =>
      have position := congrArg TokenCursor.position alike.cursor
      exact ⟨rfl, position.symm, alike.sink.symm, alike.log.symm⟩
  | error error alike =>
      have position := congrArg TokenCursor.position alike.cursor
      exact ⟨rfl, position.symm, alike.sink.symm, alike.log.symm⟩

/-- The observer makes no difference to the rest of a parse. -/
theorem Entry.parse_underObservers {σ τ ρ : Type} [Observer σ] [Observer τ] [Receiver ρ]
    (entry : Entry) (tokens : List Token) (sink : ρ) (observed : σ) (observed' : τ) :
    (entry.parse tokens sink observed').Agrees (entry.parse tokens sink observed) := by
  let start := Parser.State.start tokens sink observed
  let start' := Parser.State.start tokens sink observed'
  have agree : Parser.Outcome.SameUpTo (Node.relocate id) (entry.parse tokens sink observed)
      (entry.parse tokens sink observed') :=
    (Parser.blindSimulation σ τ ρ).entry entry start start' ⟨rfl, rfl, rfl⟩
  rw [Node.relocate_id] at agree
  exact agree.agrees

end FrontEnd
