/-
This file follows a receiver through the diagnostics that it is handed one after the other.
-/

import FrontEnd.Diagnostic.Sink

namespace FrontEnd

namespace Receiver

variable {ρ : Type} [Receiver ρ]

/-- The receiver after a diagnostic that it takes. -/
def accept? (receiver : ρ) (diagnostic : Diagnostic) : Option ρ :=
  match accept diagnostic receiver with
  | .ok () next => some next
  | .error _ _ => none

/-- The receiver after some diagnostics, if it takes them all. -/
def acceptAll? (receiver : ρ) : List Diagnostic → Option ρ
  | [] => some receiver
  | first :: rest => (accept? receiver first).bind (acceptAll? · rest)

/-- The receiver after a diagnostic, whether it takes it or not. -/
def hand (receiver : ρ) (diagnostic : Diagnostic) : ρ :=
  match accept diagnostic receiver with
  | .ok () next | .error _ next => next

/-- The receiver after some diagnostics, whether it takes them or not. -/
def handAll (receiver : ρ) (diagnostics : List Diagnostic) : ρ := diagnostics.foldl hand receiver

/-- A receiver with room for some diagnostics takes these and raises the next one. -/
structure Limited where
  room : Nat
  deriving DecidableEq, Repr

instance : Receiver Limited where
  accept diagnostic limited :=
    match limited.room with
    | 0 => .error diagnostic limited
    | room + 1 => .ok () ⟨room⟩

/-- A receiver is patient when it takes whatever it is handed, also later. -/
def Patient (receiver : ρ) : Prop := ∀ diagnostics, (acceptAll? receiver diagnostics).isSome

/-- A receiver is candid when it raises only what it is handed, also later. -/
def Candid (receiver : ρ) : Prop :=
  ∀ {taken : List Diagnostic} {between next : ρ} {diagnostic raised : Diagnostic},
    acceptAll? receiver taken = some between →
      accept diagnostic between = .error raised next → raised = diagnostic

variable {receiver next : ρ} {diagnostic raised : Diagnostic}

/-- A receiver has a successor exactly when it takes the diagnostic. -/
theorem accept?_eq_some :
    accept? receiver diagnostic = some next ↔ accept diagnostic receiver = .ok () next := by
  unfold accept?
  cases accept diagnostic receiver <;> simp

/-- A receiver that raises has no successor. -/
theorem accept?_of_error (refused : accept diagnostic receiver = .error raised next) :
    accept? receiver diagnostic = none := by
  rw [accept?, refused]

/-- Diagnostics are taken one after the other. -/
theorem acceptAll?_append (receiver : ρ) (first second : List Diagnostic) :
    acceptAll? receiver (first ++ second) =
      (acceptAll? receiver first).bind (acceptAll? · second) := by
  induction first generalizing receiver with
  | nil => rfl
  | cons diagnostic rest inductionHypothesis =>
      rw [List.cons_append, acceptAll?, acceptAll?]
      cases accept? receiver diagnostic with
      | none => rfl
      | some next => exact inductionHypothesis next

theorem acceptAll?_of_ok (taken : accept diagnostic receiver = .ok () next) :
    acceptAll? receiver [diagnostic] = some next := by
  rw [acceptAll?, accept?_eq_some.2 taken]
  rfl

/-- Diagnostics are handed one after the other. -/
theorem handAll_append (receiver : ρ) (first second : List Diagnostic) :
    handAll receiver (first ++ second) = handAll (handAll receiver first) second :=
  List.foldl_append

theorem handAll_singleton (receiver : ρ) (diagnostic : Diagnostic) :
    handAll receiver [diagnostic] = hand receiver diagnostic := rfl

/-- A patient receiver raises nothing after what it took. -/
theorem Patient.accept_ne_error (patient : Patient receiver) {taken : List Diagnostic}
    {between : ρ} (took : acceptAll? receiver taken = some between) :
    accept diagnostic between ≠ .error raised next := by
  intro refused
  have all := patient (taken ++ [diagnostic])
  rw [acceptAll?_append, took, Option.bind_some, acceptAll?, accept?_of_error refused] at all
  cases all

/-- A receiver with limited room is candid. -/
theorem Limited.candid (limited : Limited) : Candid limited := by
  intro taken between next diagnostic raised _ refused
  obtain ⟨room⟩ := between
  cases room with
  | zero => exact (EStateM.Result.error.inj refused).1.symm
  | succ room => cases refused

end Receiver

namespace Sink

/-- A sink that stops at the first diagnostic took none and is what it was. -/
theorem acceptAll?_failFast {added : List Diagnostic} {next : Sink}
    (taken : Receiver.acceptAll? failFast added = some next) : added = [] ∧ next = failFast := by
  cases added with
  | nil => exact ⟨rfl, (Option.some.inj taken).symm⟩
  | cons first rest => cases taken

/-- A sink that holds diagnostics takes them all in order. -/
theorem acceptAll?_collect (held added : List Diagnostic) :
    Receiver.acceptAll? (collect held) added = some (collect (held ++ added)) := by
  induction added generalizing held with
  | nil => rw [Receiver.acceptAll?, List.append_nil]
  | cons first rest inductionHypothesis =>
      have taken : Receiver.accept? (collect held) first = some (collect (held ++ [first])) := rfl
      rw [Receiver.acceptAll?, taken, Option.bind_some, inductionHypothesis, List.append_assoc,
        List.singleton_append]

/-- A sink that drops diagnostics takes them all. -/
theorem acceptAll?_ignore (added : List Diagnostic) :
    Receiver.acceptAll? ignore added = some ignore := by
  induction added with
  | nil => rfl
  | cons first rest inductionHypothesis => exact inductionHypothesis

/-- Only the sink that fails fast is not patient. -/
theorem patient_iff {sink : Sink} : Receiver.Patient sink ↔ sink ≠ .failFast := by
  constructor
  · intro patient stops
    subst stops
    cases patient [⟨0, 0, .endOfFile⟩]
  · intro different added
    cases sink with
    | failFast => exact absurd rfl different
    | collect held => rw [acceptAll?_collect, Option.isSome_some]
    | ignore => rw [acceptAll?_ignore, Option.isSome_some]

/-- Every sink is candid. -/
theorem candid (sink : Sink) : Receiver.Candid sink := by
  intro taken between next diagnostic raised _ refused
  cases between with
  | failFast => exact (EStateM.Result.error.inj refused).1.symm
  | collect held => cases refused
  | ignore => cases refused

end Sink

end FrontEnd
