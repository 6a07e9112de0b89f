/-
This file follows parses with any receiver. What a parse gives depends on the reports that it makes
on its way, which the receiver takes one after the other.
-/

import FrontEnd.Proofs.Parser.Reading
import FrontEnd.Proofs.Receiving
import FrontEnd.Proofs.Tree.Slots

namespace FrontEnd

/-- The diagnostic that an event notes. -/
def Event.diagnostic? : Event → Option Diagnostic
  | .reported diagnostic => some diagnostic
  | .tokenized .. | .synthesised .. | .parsedModule _ => none

namespace Parser

variable {σ ρ α β : Type}

/-- The reports that were noted so far, each before the receiver decided about it. -/
def State.reports (state : State σ ρ) : List Diagnostic := state.log.filterMap Event.diagnostic?

/-- Another event adds the diagnostic that it notes, if it notes any. -/
theorem State.reports_note (state : State σ ρ) (event : Event) :
    State.reports { state with log := state.log ++ [event] } =
      state.reports ++ event.diagnostic?.toList := by
  rw [reports, List.filterMap_append]
  cases event <;> rfl

/-- A parser is quiet when it succeeds without a report. -/
def Quiet (parser : Parser σ ρ α) (before : List Token) (condition : α → List Token → Prop) :
    Prop :=
  ∀ (state next : State σ ρ) (value : α), state.cursor.marker.kind = .eof →
    state.cursor.rest = before → parser state = .ok value next →
      condition value next.cursor.rest ∧ Kept state next

/-- What quietly ensures a condition ensures a weaker one. -/
theorem Quiet.mono {parser : Parser σ ρ α} {before : List Token}
    {condition condition' : α → List Token → Prop} (quiet : Quiet parser before condition)
    (weaker : ∀ value after, condition value after → condition' value after) :
    Quiet parser before condition' := by
  intro state next value ends starts run
  obtain ⟨meets, kept⟩ := quiet state next value ends starts run
  exact ⟨weaker _ _ meets, kept⟩

theorem quiet_look {view : TokenCursor → α} {before : List Token}
    {condition : α → List Token → Prop}
    (meets : ∀ cursor : TokenCursor, cursor.marker.kind = .eof → cursor.rest = before →
      condition (view cursor) before) :
    Quiet (fun state : State σ ρ => .ok (view state.cursor) state) before condition := by
  rintro state next value ends rfl run
  cases run
  exact ⟨meets state.cursor ends rfl, Kept.refl state⟩

/-- The current token is the first one that is left. -/
theorem quiet_current (before : List Token) :
    Quiet (current : Parser σ ρ Token) before fun token after =>
      after = before ∧ token.kind = kindAhead before ∧
        ∀ first rest, before = first :: rest → token = first := by
  refine quiet_look fun cursor ended starts => ⟨rfl, ?_, ?_⟩
  · subst starts
    unfold TokenCursor.current
    cases cursor.rest with
    | nil => exact ended
    | cons first rest => rfl
  · rintro first rest rfl
    rw [TokenCursor.current, starts]
    rfl

theorem quiet_remaining (before : List Token) :
    Quiet (remaining : Parser σ ρ Nat) before
      fun value after => value = before.length ∧ after = before := by
  refine quiet_look fun cursor _ starts => ⟨?_, rfl⟩
  rw [← starts]
  rfl

theorem quiet_note (event : Event) (before : List Token) :
    Quiet (note event : Parser σ ρ Unit) before fun _ after => after = before := by
  rintro state next value' - rfl run
  cases run
  exact ⟨rfl, rfl, rfl, rfl⟩

/-- More tokens follow exactly when no marker is ahead. -/
theorem quiet_hasNext (before : List Token) :
    Quiet (hasNext : Parser σ ρ Bool) before fun more after =>
      after = before ∧ (more ↔ kindAhead before ≠ .eof) := by
  apply @quiet_look σ ρ Bool TokenCursor.hasNext before _
  rintro cursor - rfl
  refine ⟨rfl, ?_⟩
  by_cases ended : kindAhead cursor.rest = .eof
  · simp [TokenCursor.hasNext, step?_eof ended, ended]
  · cases starts : cursor.rest with
    | nil => simp [starts] at ended
    | cons token rest =>
        rw [starts, kindAhead_cons] at ended
        simp [TokenCursor.hasNext, step?_cons starts ended, ended]

/-- An item follows exactly when neither a marker nor the closing bracket is ahead. -/
theorem quiet_beforeClose (close : Bracket) (before : List Token) :
    Quiet (beforeClose close : Parser σ ρ Bool) before fun more after =>
      after = before ∧
        (more ↔ kindAhead before ≠ .eof ∧ kindAhead before ≠ .bracket close) := by
  let view (cursor : TokenCursor) : Bool :=
    cursor.hasNext && cursor.current.kind != .bracket close
  apply @quiet_look σ ρ Bool view before _
  rintro cursor - rfl
  refine ⟨rfl, ?_⟩
  by_cases ended : kindAhead cursor.rest = .eof
  · simp [view, TokenCursor.hasNext, step?_eof ended, ended]
  · cases starts : cursor.rest with
    | nil => simp [starts] at ended
    | cons token rest =>
        rw [starts, kindAhead_cons] at ended
        simp [view, TokenCursor.hasNext, step?_cons starts ended, TokenCursor.current, starts,
          ended]

theorem quiet_make [Observer σ] (node : α → Node) (value : α) (before : List Token) :
    Quiet (make node value : Parser σ ρ α) before fun value' after =>
      value' = value ∧ after = before := by
  rintro state next value' - rfl run
  cases run
  exact ⟨⟨rfl, rfl⟩, rfl, rfl, rfl⟩

/-- The first token is taken, which is no marker. -/
theorem quiet_advance (before : List Token) :
    Quiet (advance : Parser σ ρ Token) before fun token after =>
      token.kind ≠ .eof ∧ before = token :: after := by
  rintro state next token - rfl run
  by_cases ended : kindAhead state.cursor.rest = .eof
  · simp [advance, step?_eof ended] at run
  · cases starts : state.cursor.rest with
    | nil => simp [starts] at ended
    | cons token rest =>
        rw [starts, kindAhead_cons] at ended
        rw [advance_cons starts ended] at run
        cases run
        exact ⟨⟨ended, rfl⟩, State.past_kept starts⟩

/-- A wanted token is taken. If none is, the next token is not wanted or the end is reached. -/
theorem quiet_eatWhere (wanted : Token → Bool) (before : List Token) :
    Quiet (eatWhere wanted : Parser σ ρ (Option Token)) before fun found after =>
      match found with
      | some token => token.kind ≠ .eof ∧ wanted token ∧ before = token :: after
      | none => after = before ∧ ∀ token rest, before = token :: rest → token.kind ≠ .eof →
          wanted token = false := by
  rintro state next found - rfl run
  by_cases ended : kindAhead state.cursor.rest = .eof
  · rw [eatWhere_eof ended] at run
    cases run
    refine ⟨⟨rfl, fun token rest starts goesOn => ?_⟩, Kept.refl state⟩
    simp [starts, goesOn] at ended
  · cases starts : state.cursor.rest with
    | nil => simp [starts] at ended
    | cons token rest =>
        rw [starts, kindAhead_cons] at ended
        rw [eatWhere_cons starts ended] at run
        by_cases fits : wanted token
        · rw [if_pos fits] at run
          cases run
          exact ⟨⟨ended, fits, rfl⟩, State.past_kept starts⟩
        · rw [if_neg fits] at run
          cases run
          refine ⟨⟨starts, fun token' rest' same _ => ?_⟩, Kept.refl state⟩
          cases same
          simpa using fits

/-- A token of the kind is taken, and any other stays. -/
theorem quiet_eat (kind : TokenKind) (before : List Token) :
    Quiet (eat kind : Parser σ ρ (Option Token)) before fun found after =>
      match found with
      | some token => token.kind = kind ∧ before = token :: after
      | none => after = before ∧ (kind ≠ .eof → kindAhead before ≠ kind) := by
  apply (quiet_eatWhere _ before).mono
  intro found after
  cases found with
  | some token => simp
  | none =>
      rintro ⟨rfl, misses⟩
      refine ⟨rfl, fun real ahead => ?_⟩
      cases after with
      | nil => exact real ahead.symm
      | cons token rest =>
          rw [kindAhead_cons] at ahead
          have missed := misses token rest rfl (ahead ▸ real)
          simp [ahead] at missed

/-- One of the operators is taken, and any other token stays. -/
theorem quiet_eatOneOf (operators : List Operator) (before : List Token) :
    Quiet (eatOneOf operators : Parser σ ρ (Option Token)) before fun found after =>
      match found with
      | some token => (∃ sign ∈ operators, token.kind = .operator sign) ∧ before = token :: after
      | none => after = before ∧
          ∀ sign, kindAhead before = .operator sign → sign ∉ operators := by
  apply (quiet_eatWhere _ before).mono
  intro found after
  cases found with
  | some token => simp
  | none =>
      rintro ⟨rfl, misses⟩
      refine ⟨rfl, fun sign ahead member => ?_⟩
      cases after with
      | nil => cases ahead
      | cons token rest =>
          rw [kindAhead_cons] at ahead
          have missed := misses token rest rfl (by simp [ahead])
          simp only [List.any_eq_false, decide_eq_true_eq] at missed
          exact missed sign member ahead

variable [Receiver ρ]

/-- A sign with a meaning in its place is given this meaning. -/
theorem quiet_operation {fixity : Fixity} {token : Token} {meaning : Operation}
    (means : token.operation? fixity = some meaning) (before : List Token) :
    Quiet (operation fixity token : Parser σ ρ Operation) before fun found after =>
      found = meaning ∧ after = before := by
  rintro state next found - rfl run
  unfold operation at run
  rw [means] at run
  cases run
  exact ⟨⟨rfl, rfl⟩, Kept.refl state⟩

/-- A run that succeeds has moved over its tokens, and its receiver took the diagnostics added. -/
structure Added (state : State σ ρ) (added : List Diagnostic) (next : State σ ρ) : Prop where
  tokens : next.cursor.tokens = state.cursor.tokens
  marker : next.cursor.marker = state.cursor.marker
  sink : Receiver.acceptAll? state.sink added = some next.sink

/-- A run that keeps its receiver handed it no reports. -/
theorem Kept.added {state next : State σ ρ} (kept : Kept state next) : Added state [] next :=
  ⟨kept.tokens, kept.marker, congrArg some kept.sink.symm⟩

/-- The reports of two runs follow each other. -/
theorem Added.trans {first second third : State σ ρ} {added more : List Diagnostic}
    (before : Added first added second) (after : Added second more third) :
    Added first (added ++ more) third := by
  refine ⟨after.tokens.trans before.tokens, after.marker.trans before.marker, ?_⟩
  rw [Receiver.acceptAll?_append, before.sink, Option.bind_some, after.sink]

/-- A parser gives what meets a condition when it can only succeed with such a value, such tokens
left and such diagnostics added, whatever the receiver. -/
def Gives (parser : Parser σ ρ α) (before : List Token)
    (condition : α → List Token → List Diagnostic → Prop) : Prop :=
  ∀ (state next : State σ ρ) (value : α), state.cursor.marker.kind = .eof →
    state.cursor.rest = before → parser state = .ok value next →
      ∃ added, condition value next.cursor.rest added ∧ Added state added next

/-- A parser yields what meets a condition when, failing at the first report, it can only succeed
with such a value and such tokens left. -/
def Yields (parser : Parser σ Sink α) (before : List Token) (condition : α → List Token → Prop) :
    Prop :=
  ∀ (state next : State σ) (value : α), state.sink = .failFast →
    state.cursor.marker.kind = .eof → state.cursor.rest = before →
      parser state = .ok value next → condition value next.cursor.rest ∧ Kept state next

/-- What a parser gives without diagnostics is what it yields. -/
theorem Gives.yields {parser : Parser σ Sink α} {before : List Token}
    {condition : α → List Token → List Diagnostic → Prop} (gives : Gives parser before condition) :
    Yields parser before fun value after => condition value after [] := by
  intro state next value fails ends starts run
  obtain ⟨added, meets, moved⟩ := gives state next value ends starts run
  have taken := moved.sink
  rw [fails] at taken
  obtain ⟨rfl, -⟩ := Sink.acceptAll?_failFast taken
  exact ⟨meets, moved.tokens, moved.marker, (Option.some.inj taken).symm.trans fails.symm⟩

/-- What gives a condition gives a weaker one. -/
theorem Gives.mono {parser : Parser σ ρ α} {before : List Token}
    {condition condition' : α → List Token → List Diagnostic → Prop}
    (gives : Gives parser before condition)
    (weaker : ∀ value after added, condition value after added → condition' value after added) :
    Gives parser before condition' := by
  intro state next value ends starts run
  obtain ⟨added, meets, moved⟩ := gives state next value ends starts run
  exact ⟨added, weaker _ _ _ meets, moved⟩

/-- The rest of a sequence may assume what its first part gives, and adds its reports. -/
theorem Gives.bind {first : Parser σ ρ α} {rest : α → Parser σ ρ β} {before : List Token}
    {condition : α → List Token → List Diagnostic → Prop}
    {condition' : β → List Token → List Diagnostic → Prop}
    (givesFirst : Gives first before condition)
    (givesRest : ∀ value middle added, condition value middle added →
      Gives (rest value) middle fun value' after more => condition' value' after (added ++ more)) :
    Gives (first >>= rest) before condition' := by
  intro state next value ends starts run
  obtain ⟨middle, between, ranFirst, ranRest⟩ := bind_eq_ok.1 run
  obtain ⟨added, meets, moved⟩ := givesFirst state between middle ends starts ranFirst
  obtain ⟨more, meets', movedOn⟩ := givesRest middle _ added meets between next value
    (by rw [moved.marker, ends]) rfl ranRest
  exact ⟨added ++ more, meets', moved.trans movedOn⟩

/-- A quiet run gives what it ensures without a report. -/
theorem Quiet.gives {parser : Parser σ ρ α} {before : List Token}
    {condition : α → List Token → Prop} {condition' : α → List Token → List Diagnostic → Prop}
    (quiet : Quiet parser before condition)
    (weaker : ∀ value after, condition value after → condition' value after []) :
    Gives parser before condition' := by
  intro state next value ends starts run
  obtain ⟨meets, kept⟩ := quiet state next value ends starts run
  exact ⟨[], weaker _ _ meets, kept.added⟩

/-- A quiet parser adds nothing to what comes after it. -/
theorem Quiet.bind {first : Parser σ ρ α} {rest : α → Parser σ ρ β} {before : List Token}
    {condition : α → List Token → Prop} {condition' : β → List Token → List Diagnostic → Prop}
    (quiet : Quiet first before condition)
    (givesRest : ∀ value middle, condition value middle →
      Gives (rest value) middle condition') :
    Gives (first >>= rest) before condition' := by
  intro state next value ends starts run
  obtain ⟨middle, between, ranFirst, ranRest⟩ := bind_eq_ok.1 run
  obtain ⟨meets, kept⟩ := quiet state between middle ends starts ranFirst
  obtain ⟨more, meets', movedOn⟩ := givesRest middle _ meets between next value
    (by rw [kept.marker, ends]) rfl ranRest
  exact ⟨more, meets', kept.added.trans movedOn⟩

theorem gives_pure {value : α} {before : List Token}
    {condition : α → List Token → List Diagnostic → Prop} (meets : condition value before []) :
    Gives (pure value : Parser σ ρ α) before condition := by
  rintro state next value' - rfl run
  cases run
  exact ⟨[], meets, (Kept.refl state).added⟩

/-- A value made of what a parser gives is given with the same diagnostics. -/
theorem Gives.map {parser : Parser σ ρ α} {view : α → β} {before : List Token}
    {condition : α → List Token → List Diagnostic → Prop}
    {condition' : β → List Token → List Diagnostic → Prop} (gives : Gives parser before condition)
    (weaker : ∀ value after added, condition value after added →
      condition' (view value) after added) :
    Gives (parser >>= fun value => pure (view value)) before condition' := by
  apply gives.bind
  intro value middle added meets
  apply gives_pure
  rw [List.append_nil]
  exact weaker value middle added meets

/-- A report that is taken is the only one that is added. -/
theorem gives_report (diagnostic : Diagnostic) (before : List Token) :
    Gives (report diagnostic : Parser σ ρ Unit) before fun _ after added =>
      after = before ∧ added = [diagnostic] := by
  rintro state next value - rfl run
  cases answer : Receiver.accept diagnostic state.sink with
  | error raised sink =>
      rw [report_of_error answer] at run
      cases run
  | ok _ sink =>
      rw [report_of_ok answer] at run
      cases run
      exact ⟨[diagnostic], ⟨rfl, rfl⟩, rfl, rfl, Receiver.acceptAll?_of_ok answer⟩

/-- The cursor stands before the tokens that are left. -/
theorem gives_cursor {use : TokenCursor → Parser σ ρ α} {before : List Token}
    {condition : α → List Token → List Diagnostic → Prop}
    (gives : ∀ cursor : TokenCursor, cursor.marker.kind = .eof → cursor.rest = before →
      Gives (use cursor) before condition) :
    Gives (cursor >>= use) before condition := by
  intro state next value ends starts run
  exact gives state.cursor ends starts state next value ends starts run

/-- A node made of what a parser gives is given with the same diagnostics. -/
theorem Gives.make [Observer σ] {parser : Parser σ ρ α} {node : β → Node} {view : α → β}
    {before : List Token} {condition : α → List Token → List Diagnostic → Prop}
    {condition' : β → List Token → List Diagnostic → Prop} (gives : Gives parser before condition)
    (weaker : ∀ value after added, condition value after added →
      condition' (view value) after added) :
    Gives (parser >>= fun value => Parser.make node (view value)) before condition' := by
  apply gives.bind
  intro value middle added meets
  apply (quiet_make node (view value) middle).gives
  rintro _ _ ⟨rfl, rfl⟩
  rw [List.append_nil]
  exact weaker value _ added meets

/-- A made node goes on as it is. -/
theorem Gives.afterMake [Observer σ] {node : α → Node} {value : α} {rest : α → Parser σ ρ β}
    {before : List Token} {condition : β → List Token → List Diagnostic → Prop}
    (givesRest : Gives (rest value) before condition) :
    Gives (Parser.make node value >>= rest) before condition := by
  apply (quiet_make node value before).bind
  rintro _ _ ⟨rfl, rfl⟩
  exact givesRest

/-- Making a node adds no report. -/
theorem gives_make [Observer σ] {node : α → Node} {value : α} {before : List Token}
    {condition : α → List Token → List Diagnostic → Prop} (meets : condition value before []) :
    Gives (make node value : Parser σ ρ α) before condition := by
  apply (quiet_make node value before).gives
  rintro _ _ ⟨rfl, rfl⟩
  exact meets

end Parser

end FrontEnd
