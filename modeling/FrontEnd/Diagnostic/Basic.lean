/-
This file holds diagnostics: a code with the place in a source that it concerns.
-/

import FrontEnd.Diagnostic.Code
import FrontEnd.Source
import FrontEnd.Token.Basic

namespace FrontEnd

/-- The offset and the length may reach past the end of the source. -/
structure Diagnostic where
  offset : Nat
  length : Nat
  code : Code
  deriving DecidableEq, Repr

namespace Diagnostic

/-- A diagnostic about a token covers its spelling. -/
def atToken (token : Token) (code : Code) : Diagnostic := ⟨token.offset, token.length, code⟩

/-- The covered text is cut at the end of the source, and at the start of a character that it
would split. -/
def span (diagnostic : Diagnostic) (source : Source) : Except SourceError Span :=
  let start := min diagnostic.offset source.length
  let limit := min (diagnostic.offset + diagnostic.length) source.length
  source.span start (max (Text.floorBoundary limit source.chars) start)

/-- A diagnostic past the end of the source is located at its end. -/
def location (diagnostic : Diagnostic) (source : Source) : Location :=
  let offset := min diagnostic.offset source.length
  match source.locate offset with
  | .ok location => location
  | .error _ => ⟨0, offset⟩

/-- The one-line form shows the covered text, or the offset when it splits a character. -/
def display (diagnostic : Diagnostic) (source : Source) : String :=
  let place := match diagnostic.span source with
    | .ok span => span.display source
    | .error _ => s!"offset {diagnostic.offset}"
  s!"[{diagnostic.code.severity.label}] {place}: ({diagnostic.code.name})"

end Diagnostic

end FrontEnd
