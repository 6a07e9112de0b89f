/-
This file shows a diagnostic with the source line that it concerns, underlined by carets.
-/

import FrontEnd.Diagnostic.Basic

namespace FrontEnd

/-- The parts of the report on a diagnostic. Lines and columns are shown from one on. -/
structure Excerpt where
  headline : String
  place : String
  lineNumber : Nat
  lineText : List Char
  indent : Nat
  carets : Nat
  deriving DecidableEq, Repr

/-- The underline starts within the line or just after it, and is never empty. -/
def Diagnostic.excerpt (diagnostic : Diagnostic) (source : Source) : Excerpt :=
  let location := diagnostic.location source
  let lineText := source.lineText location.line
  let indent := min location.column (Text.byteSize lineText)
  let code := diagnostic.code
  { headline := s!"-- {code.severity.name}: {code.title} [{code.name}]"
    place := s!"  --> {source.name}:{location.line + 1}:{location.column + 1}"
    lineNumber := location.line + 1
    lineText := lineText
    indent := indent
    carets := max (min diagnostic.length (Text.byteSize lineText - indent)) 1 }

/-- The blanks before a caret. -/
def spaces (count : Nat) : String := String.ofList (List.replicate count ' ')

/-- The lines of a report. The gutter is as wide as the line number. -/
def Excerpt.lines (excerpt : Excerpt) : List String :=
  let number := toString excerpt.lineNumber
  let gutter := spaces number.length
  [excerpt.headline,
    excerpt.place,
    gutter ++ " |",
    number ++ " | " ++ String.ofList excerpt.lineText,
    gutter ++ " | " ++ spaces excerpt.indent ++
      String.ofList (List.replicate excerpt.carets '^')]

/-- The report on a diagnostic shows its line with carets below. -/
def Diagnostic.render (diagnostic : Diagnostic) (source : Source) : String :=
  String.intercalate "\n" (diagnostic.excerpt source).lines

/-- Reports are separated by blank lines. -/
def Diagnostic.renderAll (diagnostics : List Diagnostic) (source : Source) : String :=
  String.intercalate "\n\n" (diagnostics.map (·.render source))

end FrontEnd
