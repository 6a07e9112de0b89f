/-
This file fits diagnostics into their source. Whatever the offset and the length of a diagnostic
are, its span starts in the source and ends at the last boundary that it reaches there.
-/

import FrontEnd.Exchange
import FrontEnd.Proofs.Source
import Mathlib.Order.Bounds.Basic

namespace FrontEnd

namespace Text

/-- Every text begins at a boundary. -/
theorem isBoundary_zero (chars : List Char) : isBoundary 0 chars :=
  isBoundary_iff.2 ⟨[], chars, rfl, rfl⟩

/-- A boundary stands before the first character, or behind it at a boundary of the rest. -/
theorem isBoundary_cons {offset : Nat} {char : Char} {rest : List Char} :
    isBoundary offset (char :: rest) ↔
      offset = 0 ∨ ∃ inner, isBoundary inner rest ∧ offset = char.utf8Size + inner := by
  constructor
  · intro boundary
    obtain ⟨before, after, whole, rfl⟩ := isBoundary_iff.1 boundary
    cases before with
    | nil => exact .inl rfl
    | cons first before =>
        obtain ⟨rfl, rfl⟩ := List.cons.inj whole
        exact .inr ⟨byteSize before, isBoundary_iff.2 ⟨before, after, rfl, rfl⟩, rfl⟩
  · rintro (rfl | ⟨inner, boundary, rfl⟩)
    · exact isBoundary_zero _
    · obtain ⟨before, after, rfl, rfl⟩ := isBoundary_iff.1 boundary
      exact isBoundary_iff.2 ⟨char :: before, after, rfl, rfl⟩

/-- The boundary below a limit is the greatest one there. -/
theorem floorBoundary_isGreatest (limit : Nat) (chars : List Char) :
    IsGreatest {offset | isBoundary offset chars ∧ offset ≤ limit} (floorBoundary limit chars) := by
  induction chars generalizing limit with
  | nil =>
      refine ⟨⟨isBoundary_zero [], Nat.zero_le limit⟩, ?_⟩
      rintro offset ⟨boundary, -⟩
      exact isBoundary_le boundary
  | cons char rest inductionHypothesis =>
      rw [floorBoundary]
      split
      · next fits =>
        obtain ⟨⟨boundary, within⟩, greatest⟩ := inductionHypothesis (limit - char.utf8Size)
        refine ⟨⟨isBoundary_cons.2 (.inr ⟨_, boundary, rfl⟩), by omega⟩, ?_⟩
        rintro offset ⟨other, below⟩
        rcases isBoundary_cons.1 other with rfl | ⟨inner, innerBoundary, rfl⟩
        · exact Nat.zero_le _
        · have inside : inner ≤ floorBoundary (limit - char.utf8Size) rest :=
            greatest ⟨innerBoundary, by omega⟩
          omega
      · next tooWide =>
        refine ⟨⟨isBoundary_zero _, Nat.zero_le limit⟩, ?_⟩
        rintro offset ⟨other, below⟩
        rcases isBoundary_cons.1 other with rfl | ⟨inner, -, rfl⟩
        · exact le_rfl
        · omega

/-- Goes back to a boundary byte by byte. There is no byte before the first one. -/
def stepBack? (chars : List Char) : Nat → Option Nat
  | 0 => if isBoundary 0 chars then some 0 else none
  | offset + 1 =>
      if isBoundary (offset + 1) chars then some (offset + 1) else stepBack? chars offset

/-- Going back always comes to a boundary, and to the nearest one first. -/
theorem stepBack?_eq (chars : List Char) (limit : Nat) :
    stepBack? chars limit = some (floorBoundary limit chars) := by
  induction limit with
  | zero =>
      rw [stepBack?, if_pos (isBoundary_zero chars), floorBoundary_eq (isBoundary_zero chars)]
  | succ limit inductionHypothesis =>
      rw [stepBack?]
      split
      · next boundary => rw [floorBoundary_eq boundary]
      · next splits =>
        rw [inductionHypothesis]
        -- No boundary is lost when the limit moves back from inside a character.
        have same : {offset | isBoundary offset chars ∧ offset ≤ limit} =
            {offset | isBoundary offset chars ∧ offset ≤ limit + 1} := by
          ext offset
          refine and_congr_right fun boundary => ⟨Nat.le_succ_of_le, fun below => ?_⟩
          rcases Nat.lt_or_eq_of_le below with smaller | rfl
          · exact Nat.le_of_lt_succ smaller
          · exact absurd boundary splits
        have greatest := floorBoundary_isGreatest limit chars
        rw [same] at greatest
        exact congrArg some (greatest.unique (floorBoundary_isGreatest (limit + 1) chars))

end Text

namespace Source

variable {source : Source} {start stop : Nat}

/-- Behind a start inside a character there is no span, wherever it stops. -/
theorem span_inside (inside : ¬ Text.isBoundary start source.chars) (ordered : start ≤ stop)
    (within : stop ≤ source.length) : source.span start stop = .error (.insideCharacter start) := by
  have startChecked : source.checkOffset start = .ok () := if_pos (ordered.trans within)
  have stopChecked : source.checkOffset stop = .ok () := if_pos within
  have none : Text.slice? start stop source.chars = none := by
    cases cut : Text.slice? start stop source.chars with
    | none => rfl
    | some middle =>
        obtain ⟨before, after, whole, size, -⟩ := Text.slice?_sound cut
        exact absurd (Text.isBoundary_iff.2 ⟨before, _, whole, size⟩) inside
  rw [span, startChecked, stopChecked]
  simp [bind, Except.bind, Nat.not_lt.2 ordered, none, inside, throw, throwThe, MonadExceptOf.throw]

end Source

/-- The value that an object has under a name. -/
def Json.field? (name : String) : Json → Option Json
  | .object members => members.lookup name
  | _ => none

namespace Diagnostic

/-- The greatest offset that fits into a machine word. -/
def maxOffset : Nat := 2 ^ 64 - 1

/-- The span by way of machine words. A sum that is too great stands for the greatest word, and the
end goes back byte by byte. -/
def span? (diagnostic : Diagnostic) (source : Source) : Option (Except SourceError Span) := do
  let start := min diagnostic.offset source.length
  let sum := min (diagnostic.offset + diagnostic.length) maxOffset
  let stop ← Text.stepBack? source.chars (min sum source.length)
  return source.span start (max stop start)

variable {source : Source}

theorem span?_eq (diagnostic : Diagnostic) (fits : source.length ≤ maxOffset) :
    diagnostic.span? source = some (diagnostic.span source) := by
  have same : min (min (diagnostic.offset + diagnostic.length) maxOffset) source.length =
      min (diagnostic.offset + diagnostic.length) source.length := by
    rw [min_assoc, min_eq_right fits]
  rw [span?, same, Text.stepBack?_eq]
  rfl

/-- The location of a diagnostic is that of its clamped offset. -/
theorem locate_min (diagnostic : Diagnostic) (source : Source) :
    source.locate (min diagnostic.offset source.length) = .ok (diagnostic.location source) := by
  obtain ⟨location, located⟩ := Source.exists_locate (min_le_right diagnostic.offset source.length)
  rw [Diagnostic.location, located]

/-- A diagnostic of any offset and length is clamped to its source, also when its span is found by
way of machine words. Unless its start falls inside a character, the span goes from there to the
last boundary that the sum does not pass, and has the line and the column of the record. -/
theorem span_clamped (diagnostic : Diagnostic) (source : Source) :
    let start := min diagnostic.offset source.length
    let limit := min (diagnostic.offset + diagnostic.length) source.length
    (source.length ≤ maxOffset → diagnostic.span? source = some (diagnostic.span source)) ∧
      if Text.isBoundary start source.chars then
        ∃ stop span, diagnostic.span source = .ok span ∧
          IsGreatest {offset | Text.isBoundary offset source.chars ∧ offset ≤ limit} stop ∧
          start ≤ stop ∧ span.offset = start ∧
          Text.slice? start stop source.chars = some span.text.toList ∧
          span.location = diagnostic.location source ∧
          (diagnostic.exchange source).field? "line" = some (.number span.location.line) ∧
          (diagnostic.exchange source).field? "column" = some (.number span.location.column)
      else diagnostic.span source = .error (.insideCharacter start) := by
  intro start limit
  refine ⟨diagnostic.span?_eq, ?_⟩
  have greatest := Text.floorBoundary_isGreatest limit source.chars
  have reaches : start ≤ limit := by omega
  split
  · next boundary =>
    have ordered : start ≤ Text.floorBoundary limit source.chars := greatest.2 ⟨boundary, reaches⟩
    obtain ⟨middle, cut⟩ := Text.exists_slice boundary greatest.1.1 ordered
    have cutEq : diagnostic.span source =
        source.span start (Text.floorBoundary limit source.chars) := by
      rw [span, max_eq_left ordered]
    have spanned := Source.span_of_located cut (Text.isBoundary_le greatest.1.1)
      (diagnostic.locate_min source)
    refine ⟨_, _, cutEq.trans spanned, greatest, ordered, rfl, ?_, rfl, rfl, rfl⟩
    rw [cut, String.toList_ofList]
  · next inside =>
    refine Source.span_inside inside (le_max_right _ _) (max_le ?_ (min_le_right _ _))
    exact Text.isBoundary_le greatest.1.1

/-- The character after the first one has two bytes. A diagnostic that ends inside it covers
nothing, and one that starts inside it has no span, however long it is. -/
theorem span_clamped_wide :
    let source : Source := ⟨"aé", none⟩
    let before : Diagnostic := ⟨1, 1, .unexpectedToken⟩
    let within : Diagnostic := ⟨2, maxOffset, .unexpectedToken⟩
    source.length ≤ maxOffset ∧ (∃ span, before.span source = .ok span ∧ span.offset = 1) ∧
      within.span? source = some (.error (.insideCharacter 2)) := by
  intro source before within
  have fits : source.length ≤ maxOffset := by decide +kernel
  have boundary : Text.isBoundary (min before.offset source.length) source.chars := by
    decide +kernel
  have inside : ¬ Text.isBoundary (min within.offset source.length) source.chars := by
    decide +kernel
  obtain ⟨-, covers⟩ := before.span_clamped source
  obtain ⟨words, fails⟩ := within.span_clamped source
  rw [if_pos boundary] at covers
  rw [if_neg inside] at fails
  obtain ⟨stop, span, found, -, -, offset, -⟩ := covers
  refine ⟨fits, ⟨span, found, offset.trans (by decide +kernel)⟩, ?_⟩
  rw [words fits, fails]
  decide +kernel

end Diagnostic

end FrontEnd
