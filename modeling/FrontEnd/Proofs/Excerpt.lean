/-
This file reads the report on a diagnostic. It shows the line of the source that stands around the
diagnostic, with the number of this line, and an underline that keeps within it.
-/

import FrontEnd.Diagnostic.Excerpt
import FrontEnd.Proofs.LineText

namespace FrontEnd

/-- A number is written without line feeds. -/
@[simp] theorem noFeed_toDigits (number : Nat) : '\n' ∉ Nat.toDigits 10 number := by
  intro member
  have digit := Nat.isDigit_of_mem_toDigits (by decide) (by decide) member
  exact absurd digit (by decide)

@[simp] theorem toList_spaces (count : Nat) : (spaces count).toList = List.replicate count ' ' :=
  String.toList_ofList

namespace Excerpt

/-- The lines of a report as characters. The line that is shown comes after its number, and the
underline after a gutter of the same width. -/
def rows (excerpt : Excerpt) : List (List Char) :=
  let number := Nat.toDigits 10 excerpt.lineNumber
  let gutter := List.replicate number.length ' '
  [excerpt.headline.toList, excerpt.place.toList, gutter ++ [' ', '|'],
    number ++ [' ', '|', ' '] ++ excerpt.lineText,
    gutter ++ [' ', '|', ' '] ++ List.replicate excerpt.indent ' ' ++
      List.replicate excerpt.carets '^']

variable {excerpt : Excerpt}

/-- The lines of an excerpt are its rows. -/
theorem toList_lines : excerpt.lines.map String.toList = excerpt.rows := by
  have width : excerpt.lineNumber.repr.length = (Nat.toDigits 10 excerpt.lineNumber).length := by
    rw [← String.length_toList, Nat.toList_repr]
  simp [lines, rows, width]

/-- No line of a report is broken when its texts are not. -/
theorem noFeed_rows (headline : '\n' ∉ excerpt.headline.toList)
    (place : '\n' ∉ excerpt.place.toList) (shown : '\n' ∉ excerpt.lineText) :
    ∀ row ∈ excerpt.rows, '\n' ∉ row := by
  simp [rows, headline, place, shown]

end Excerpt

namespace Diagnostic

variable (diagnostic : Diagnostic) (source : Source)

/-- The headline of an excerpt stands on one line. -/
theorem noFeed_headline : '\n' ∉ (diagnostic.excerpt source).headline.toList := by
  have name : '\n' ∉ diagnostic.code.name.toList := by cases diagnostic.code <;> decide
  have title : '\n' ∉ diagnostic.code.title.toList := by cases diagnostic.code <;> decide
  simp [excerpt, Code.severity, Severity.name, toString, name, title]

/-- The place of an excerpt stands on one line when the name of its source does. -/
theorem noFeed_place (plain : ∀ url ∈ source.url, '\n' ∉ url.toList) :
    '\n' ∉ (diagnostic.excerpt source).place.toList := by
  have name : '\n' ∉ source.name.toList := by
    rw [Source.name]
    cases address : source.url with
    | none => decide
    | some url => exact plain url address
  simp [excerpt, toString, name]

/-- A diagnostic is located at its offset, or at the end of the source. -/
theorem locate_location :
    source.locate (min diagnostic.offset source.length) = .ok (diagnostic.location source) := by
  obtain ⟨location, located⟩ := Source.exists_locate (min_le_right diagnostic.offset source.length)
  rw [Diagnostic.location, located]

/-- The underline is not empty and stands under the bytes of the line, or just behind them. -/
theorem underline_bounds :
    let excerpt := diagnostic.excerpt source
    let size := Text.byteSize excerpt.lineText
    1 ≤ excerpt.carets ∧ excerpt.indent ≤ size ∧
      (excerpt.indent + excerpt.carets ≤ size ∨ (excerpt.carets = 1 ∧ excerpt.indent = size)) := by
  intro excerpt size
  have indent : excerpt.indent = min (diagnostic.location source).column size := rfl
  have carets : excerpt.carets = max (min diagnostic.length (size - excerpt.indent)) 1 := rfl
  omega

/-- A report is its rows with line feeds between them. -/
theorem toList_render :
    (diagnostic.render source).toList = ['\n'].intercalate (diagnostic.excerpt source).rows := by
  rw [render, String.toList_intercalate, Excerpt.toList_lines]
  rfl

/-- The report on a diagnostic is found without a look outside of the line table or a cut inside of
a character. It shows the line around the diagnostic, or around the end of the source, after the
number of the line. The underline is not empty and starts within the line or just behind it. The
report has five lines when the address of the source is one line. -/
theorem render_around :
    let excerpt := diagnostic.excerpt source
    let place := min diagnostic.offset source.length
    let location := diagnostic.location source
    let size := Text.byteSize excerpt.lineText
    (source.locate? place = some location ∧
      source.lineText? location.line = some excerpt.lineText) ∧
    (∃ before ending after, Text.LineIn source.chars before excerpt.lineText ending after ∧
      excerpt.lineNumber = Text.breaks before + 1 ∧ Text.byteSize before ≤ place ∧
      (ending = [] ∨ place < Text.byteSize (before ++ (excerpt.lineText ++ ending)))) ∧
    (∀ char ∈ excerpt.lineText, char ≠ '\n' ∧ char ≠ '\r') ∧
    (1 ≤ excerpt.carets ∧ excerpt.indent ≤ size ∧
      (excerpt.indent + excerpt.carets ≤ size ∨ (excerpt.carets = 1 ∧ excerpt.indent = size))) ∧
    (diagnostic.render source).toList = ['\n'].intercalate excerpt.rows ∧
    ((∀ url ∈ source.url, '\n' ∉ url.toList) →
      (diagnostic.render source).toList.splitOn '\n' = excerpt.rows ∧ excerpt.rows.length = 5) := by
  intro excerpt place location size
  obtain ⟨located, shown, before, ending, after, inside, count, stands, ends⟩ :=
    Source.lineText_around (diagnostic.locate_location source)
  refine ⟨⟨located, shown⟩, ⟨before, ending, after, inside, congrArg (· + 1) count.symm, ?_, ends⟩,
    inside.unbroken, diagnostic.underline_bounds source, diagnostic.toList_render source,
    fun plain => ⟨?_, rfl⟩⟩
  · change _ ≤ min diagnostic.offset source.length
    omega
  · rw [toList_render]
    refine List.splitOn_intercalate '\n' ?_ (List.cons_ne_nil _ _)
    exact Excerpt.noFeed_rows (diagnostic.noFeed_headline source)
      (diagnostic.noFeed_place source plain) fun feed => (inside.unbroken _ feed).1 rfl

/-- A diagnostic between a carriage return and its line feed is shown behind the line that they
end. -/
theorem render_around_break :
    let source : Source := ⟨"é\r\n\rlet 1", some "two.lm"⟩
    let diagnostic : Diagnostic := ⟨3, 4, .expectedComma⟩
    let excerpt := diagnostic.excerpt source
    (∀ url ∈ source.url, '\n' ∉ url.toList) ∧
      (diagnostic.render source).toList.splitOn '\n' = excerpt.rows ∧
      excerpt.lineText = ['é'] ∧ excerpt.lineNumber = 1 ∧ excerpt.indent = 2 ∧
      excerpt.carets = 1 := by
  intro source diagnostic excerpt
  have plain : ∀ url ∈ source.url, '\n' ∉ url.toList := by decide +kernel
  obtain ⟨-, -, -, -, -, lines⟩ := diagnostic.render_around source
  refine ⟨plain, (lines plain).1, ?_⟩
  decide +kernel

end Diagnostic

end FrontEnd
