/-
This file lays text out in lines that are indented by a level. A text written verbatim keeps its
own lines.
-/

namespace FrontEnd

/-- The characters written so far stand last one first. -/
structure Layout where
  unit : List Char
  level : Nat
  written : List Char
  deriving DecidableEq, Repr

namespace Layout

/-- What can be asked of a layout. -/
inductive Step where
  | indent
  | dedent
  | write (text : String)
  | writeLine (text : String)
  | verbatim (text : String)
  deriving DecidableEq, Repr

/-- An empty layout stands on the outermost level. -/
def start (unit : String) : Layout := ⟨unit.toList, 0, []⟩

/-- What was written so far. -/
def text (layout : Layout) : String := String.ofList layout.written.reverse

/-- A line starts at the beginning and after each line feed. -/
def atLineStart (layout : Layout) : Bool :=
  match layout.written with
  | [] => true
  | last :: _ => last = '\n'

/-- The indentation of a new line is one unit for each level. -/
def margin (layout : Layout) : List Char := (List.replicate layout.level layout.unit).flatten

/-- The first character of a line follows the indentation. -/
def openLine (layout : Layout) : Layout :=
  if layout.atLineStart then
    { layout with written := layout.margin.reverse ++ layout.written }
  else
    layout

/-- A line feed is not indented. -/
def put (layout : Layout) (char : Char) : Layout :=
  let layout := if char = '\n' then layout else layout.openLine
  { layout with written := char :: layout.written }

/-- Characters are put one after the other. -/
def putAll (layout : Layout) (chars : List Char) : Layout := chars.foldl put layout

/-- Opening a line stays on the same level. -/
@[simp] theorem openLine_level (layout : Layout) : layout.openLine.level = layout.level := by
  unfold openLine
  split <;> rfl

/-- Only the steps for indentation change the level. -/
@[simp] theorem put_level (layout : Layout) (char : Char) :
    (layout.put char).level = layout.level := by
  by_cases feed : char = '\n' <;> simp [put, feed]

/-- Writing a text in two parts is writing it at once. -/
theorem putAll_append (layout : Layout) (first second : List Char) :
    layout.putAll (first ++ second) = (layout.putAll first).putAll second := by
  simp [putAll]

/-- Only the beginning of a verbatim text can be indented. -/
def putVerbatim (layout : Layout) (chars : List Char) : Layout :=
  if chars.isEmpty then layout
  else
    let layout := layout.openLine
    { layout with written := chars.reverse ++ layout.written }

def apply (layout : Layout) : Step → Layout
  | .indent => { layout with level := layout.level + 1 }
  | .dedent => { layout with level := layout.level - 1 }
  | .write text => layout.putAll text.toList
  | .writeLine text => (layout.putAll text.toList).put '\n'
  | .verbatim text => layout.putVerbatim text.toList

/-- Steps are taken one after the other. -/
def run (layout : Layout) (steps : List Step) : Layout := steps.foldl apply layout

/-- A run of steps can be cut anywhere. -/
theorem run_append (layout : Layout) (first second : List Step) :
    layout.run (first ++ second) = (layout.run first).run second := by
  simp [run]

/-- The text that steps lay out, two spaces a level. -/
def print (steps : List Step) : String := ((start "  ").run steps).text

end Layout

end FrontEnd
