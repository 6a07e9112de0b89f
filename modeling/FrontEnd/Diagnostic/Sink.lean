/-
This file decides what becomes of the diagnostics that a parse reports.
-/

import FrontEnd.Diagnostic.Basic

namespace FrontEnd

/-- A receiver takes a diagnostic or raises one of its own choice, and changes either way. -/
class Receiver (ρ : Type) where
  accept : Diagnostic → EStateM Diagnostic ρ Unit

/-- A sink stops at the first diagnostic, holds all of them in order, or drops them. -/
inductive Sink where
  | failFast
  | collect (held : List Diagnostic)
  | ignore
  deriving DecidableEq, Repr

namespace Sink

/-- A sink refuses a diagnostic by giving no successor. -/
def accept? : Sink → Diagnostic → Option Sink
  | .failFast, _ => none
  | .collect held, diagnostic => some (.collect (held ++ [diagnostic]))
  | .ignore, _ => some .ignore

/-- A sink that fails fast or drops its diagnostics holds none. -/
def held : Sink → List Diagnostic
  | .collect held => held
  | .failFast | .ignore => []

end Sink

/-- A sink raises the diagnostic that it refuses. -/
@[default_instance] instance : Receiver Sink where
  accept diagnostic sink :=
    match sink.accept? diagnostic with
    | some next => .ok () next
    | none => .error diagnostic sink

end FrontEnd
