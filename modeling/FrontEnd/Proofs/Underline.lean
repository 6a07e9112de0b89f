/-
This file compares the underline of a report with the characters that it should stand under. The
underline counts bytes where a reader counts characters, so the two agree on narrow characters only.
-/

import FrontEnd.Proofs.Excerpt

namespace FrontEnd

namespace Text

/-- The characters that begin within the first bytes of a text. -/
def begun : Nat → List Char → List Char
  | _, [] | 0, _ :: _ => []
  | limit + 1, char :: rest => char :: begun (limit + 1 - char.utf8Size) rest

@[simp] theorem begun_nil (limit : Nat) : begun limit [] = [] := by
  rw [begun]

@[simp] theorem begun_zero (chars : List Char) : begun 0 chars = [] := by
  cases chars <;> rw [begun]

/-- The characters that begin in the first part are those of the first part. -/
theorem begun_append (front back : List Char) : begun (byteSize front) (front ++ back) = front := by
  induction front with
  | nil => exact begun_zero back
  | cons char rest inductionHypothesis =>
      obtain ⟨size, same⟩ := Nat.exists_eq_add_of_lt char.utf8Size_pos
      have bytes : byteSize (char :: rest) = size + byteSize rest + 1 := by
        rw [byteSize_cons]
        omega
      have left : size + byteSize rest + 1 - char.utf8Size = byteSize rest := by omega
      rw [bytes, List.cons_append, begun, left, inductionHypothesis]

/-- All characters begin within the size of a text. -/
theorem begun_of_le {limit : Nat} {chars : List Char} (within : byteSize chars ≤ limit) :
    begun limit chars = chars := by
  induction chars generalizing limit with
  | nil => exact begun_nil limit
  | cons char rest inductionHypothesis =>
      have positive := char.utf8Size_pos
      rw [byteSize_cons] at within
      cases limit with
      | zero => omega
      | succ limit => rw [begun, inductionHypothesis (by omega)]

/-- The characters that begin within a limit are the first ones. -/
theorem begun_prefix (limit : Nat) (chars : List Char) : begun limit chars <+: chars := by
  induction chars generalizing limit with
  | nil => simp
  | cons char rest inductionHypothesis =>
      cases limit with
      | zero => exact List.nil_prefix
      | succ limit => exact List.cons_prefix_cons.2 ⟨rfl, inductionHypothesis _⟩

/-- Within some bytes no more characters begin than there are bytes. -/
theorem length_begun_le (limit : Nat) (chars : List Char) :
    (begun limit chars).length ≤ min limit (byteSize chars) := by
  induction chars generalizing limit with
  | nil => simp
  | cons char rest inductionHypothesis =>
      cases limit with
      | zero => exact Nat.zero_le _
      | succ limit =>
          have positive := char.utf8Size_pos
          have inner := inductionHypothesis (limit + 1 - char.utf8Size)
          rw [begun, List.length_cons, byteSize_cons]
          omega

theorem min_eq_zero_of_begun {limit : Nat} {chars : List Char}
    (none : (begun limit chars).length = 0) : min limit (byteSize chars) = 0 := by
  cases chars with
  | nil => simp
  | cons char rest =>
      cases limit with
      | zero => simp
      | succ limit => cases none

/-- A text has as many characters as bytes exactly when it is all narrow. -/
theorem length_eq_byteSize_iff {chars : List Char} :
    byteSize chars = chars.length ↔ ∀ char ∈ chars, char.utf8Size = 1 := by
  induction chars with
  | nil => simp
  | cons char rest inductionHypothesis =>
      have positive := char.utf8Size_pos
      have least := length_begun_le (byteSize rest) rest
      rw [begun_of_le le_rfl] at least
      rw [List.forall_mem_cons, ← inductionHypothesis, byteSize_cons, List.length_cons]
      omega

/-- As many characters as bytes begin within a limit exactly when all but the last of them are
narrow. The last one can reach past the limit. -/
theorem length_begun_iff {limit : Nat} {chars : List Char} :
    min limit (byteSize chars) = (begun limit chars).length ↔
      ∀ char ∈ begun (limit - 1) chars, char.utf8Size = 1 := by
  induction chars generalizing limit with
  | nil => simp
  | cons char rest inductionHypothesis =>
      have positive := char.utf8Size_pos
      rcases limit with _ | _ | limit
      · simp
      · have none : 1 - char.utf8Size = 0 := by omega
        have least : min 1 (char.utf8Size + byteSize rest) = 1 := by omega
        simp [begun, none, least]
      · have most := length_begun_le (limit + 1 + 1 - char.utf8Size) rest
        rw [Nat.add_sub_cancel, begun, begun, List.forall_mem_cons, byteSize_cons,
          List.length_cons]
        by_cases narrow : char.utf8Size = 1
        · have inner : min (limit + 1) (byteSize rest) = (begun (limit + 1) rest).length ↔
              ∀ char ∈ begun limit rest, char.utf8Size = 1 := inductionHypothesis
          rw [narrow, Nat.add_sub_cancel, Nat.add_sub_cancel, ← inner]
          omega
        · refine iff_of_false (fun same => ?_) fun all => narrow all.1
          omega

/-- The characters of a line before an offset of the text are as wide as the part of the line before
the offset. -/
theorem LineIn.byteSize_begun {chars before line ending after : List Char} {column : Nat}
    (inside : LineIn chars before line ending after)
    (boundary : isBoundary (byteSize before + column) chars) :
    byteSize (begun column line) = min column (byteSize line) := by
  obtain ⟨front, rest, same, size⟩ := isBoundary_iff.1 boundary
  rw [inside.whole] at same
  have reaches : ∃ middle, byteSize middle = column ∧
      line ++ (ending ++ after) = middle ++ rest := by
    rcases List.append_eq_append_iff.1 same with ⟨middle, rfl, whole⟩ | ⟨middle, rfl, rfl⟩
    · rw [byteSize_append] at size
      exact ⟨middle, by omega, whole⟩
    · rw [byteSize_append] at size
      have none : middle = [] := by
        by_contra filled
        have positive := byteSize_pos filled
        omega
      subst none
      exact ⟨[], by rw [byteSize_nil] at size ⊢; omega, rfl⟩
  obtain ⟨middle, rfl, whole⟩ := reaches
  rcases List.append_eq_append_iff.1 whole with ⟨others, rfl, -⟩ | ⟨others, rfl, -⟩
  · rw [begun_of_le (by simp), byteSize_append]
    omega
  · rw [begun_append, byteSize_append]
    omega

end Text

namespace Diagnostic

variable {diagnostic : Diagnostic} {source : Source}

/-- The underline of a diagnostic between two characters has as many blanks as there are bytes of
the line before the diagnostic, and as many carets as it covers of the bytes behind. So the blanks
and the carets are as many as the characters exactly when all characters before the diagnostic and
all that it covers are narrow, where the last one that it covers can be cut. -/
theorem underline_iff (boundary : Text.isBoundary diagnostic.offset source.chars) :
    let excerpt := diagnostic.excerpt source
    let column := (diagnostic.location source).column
    let front := Text.begun column excerpt.lineText
    let back := excerpt.lineText.drop front.length
    let covered := Text.begun diagnostic.length back
    (∃ before ending after, Text.LineIn source.chars before excerpt.lineText ending after ∧
      Text.byteSize before + column = diagnostic.offset) ∧
    (∃ above width, (diagnostic.render source).toList =
      above ++ '\n' :: (List.replicate width ' ' ++ [' ', '|', ' '] ++
        List.replicate excerpt.indent ' ' ++ List.replicate excerpt.carets '^')) ∧
    excerpt.lineText = front ++ back ∧
    (excerpt.indent = Text.byteSize front ∧
      excerpt.carets = max (min diagnostic.length (Text.byteSize back)) 1) ∧
    (excerpt.indent = front.length ∧ excerpt.carets = max covered.length 1 ↔
      ∀ char ∈ front ++ Text.begun (diagnostic.length - 1) back, char.utf8Size = 1) := by
  intro excerpt column front back covered
  have within : diagnostic.offset ≤ source.length := Text.isBoundary_le boundary
  have located := diagnostic.locate_location source
  rw [min_eq_left within] at located
  obtain ⟨-, -, before, ending, after, inside, -, stands, -⟩ := Source.lineText_around located
  have parts : excerpt.lineText = front ++ back :=
    (List.prefix_iff_eq_append.1 (Text.begun_prefix column excerpt.lineText)).symm
  have size := congrArg Text.byteSize parts
  rw [Text.byteSize_append] at size
  have indent : excerpt.indent = Text.byteSize front :=
    (inside.byteSize_begun (stands ▸ boundary)).symm
  have carets : excerpt.carets = max (min diagnostic.length (Text.byteSize back)) 1 := by
    have left : Text.byteSize back = Text.byteSize excerpt.lineText - excerpt.indent := by omega
    rw [left]
    rfl
  refine ⟨⟨before, ending, after, inside, stands⟩, ?_, parts, ⟨indent, carets⟩, ?_⟩
  · let number := Nat.toDigits 10 excerpt.lineNumber
    refine ⟨['\n'].intercalate (excerpt.rows.take 4), number.length, ?_⟩
    rw [toList_render]
    simp [Excerpt.rows, excerpt, number]
  · have most := Text.length_begun_le diagnostic.length back
    have least : (Text.begun diagnostic.length back).length = 0 →
        min diagnostic.length (Text.byteSize back) = 0 := Text.min_eq_zero_of_begun
    rw [List.forall_mem_append, ← Text.length_eq_byteSize_iff, ← Text.length_begun_iff, indent,
      carets]
    refine and_congr_right fun _ => ?_
    change max _ 1 = max (Text.begun diagnostic.length back).length 1 ↔ _
    omega

/-- A wide character in a string before the diagnostic moves the underline one place to the
right. -/
theorem underline_wide :
    let source : Source := ⟨"let s = f('é' x)", none⟩
    let diagnostic : Diagnostic := ⟨15, 1, .expectedComma⟩
    let excerpt := diagnostic.excerpt source
    let front := Text.begun (diagnostic.location source).column excerpt.lineText
    let covered := Text.begun 1 (excerpt.lineText.drop front.length)
    Text.isBoundary diagnostic.offset source.chars ∧ front = "let s = f('é' ".toList ∧
      covered = ['x'] ∧ front.length = 14 ∧ excerpt.indent = 15 ∧
      ¬(excerpt.indent = front.length ∧ excerpt.carets = max covered.length 1) := by
  intro source diagnostic excerpt front covered
  have boundary : Text.isBoundary diagnostic.offset source.chars := by decide +kernel
  have shown : front = "let s = f('é' ".toList := by decide +kernel
  obtain ⟨-, -, -, ⟨indent, -⟩, agrees⟩ := underline_iff boundary
  refine ⟨boundary, shown, by decide +kernel, by rw [shown]; rfl, ?_, fun same => ?_⟩
  · rw [indent, show Text.begun _ _ = front from rfl, shown]
    decide +kernel
  · have wide : 'é' ∈ front := by
      rw [shown]
      decide +kernel
    exact absurd (agrees.1 same 'é' (List.mem_append_left _ wide)) (by decide)

end Diagnostic

end FrontEnd
