/-
This file says where a layout puts its unit. What it writes is the text that the steps pass on, and
before each character of it as many copies of the unit as the calls so far demand.
-/

import FrontEnd.Proofs.Layout
import Mathlib.Data.List.Infix

namespace FrontEnd

namespace Layout

/-- The text that a step passes on. -/
def Step.raw : Step → List Char
  | .indent | .dedent => []
  | .write text | .verbatim text => text.toList
  | .writeLine text => text.toList ++ ['\n']

/-- The raw text of steps is what they pass on, one after the other. -/
def rawText (steps : List Step) : List Char := steps.flatMap Step.raw

/-- A step moves the level, which never falls below zero. -/
def Step.move (level : Nat) : Step → Nat
  | .indent => level + 1
  | .dedent => level - 1
  | .write _ | .writeLine _ | .verbatim _ => level

/-- The level in force behind steps. -/
def levelBehind (steps : List Step) : Nat := steps.foldl Step.move 0

/-- A line starts at the beginning of a raw text and behind each of its line feeds. -/
def startsLine (raw : List Char) : Bool := raw.isEmpty || endsLine raw

/-- Whether a step indents a character when a line starts there. In a verbatim text this is the
first character, and elsewhere any but a line feed. -/
def Step.indents (front : List Char) (char : Char) : Step → Bool
  | .indent | .dedent => false
  | .write _ | .writeLine _ => char ≠ '\n'
  | .verbatim _ => front.isEmpty

/-- The number of units before a character of a step. The steps before this one and the front of its
own text are the raw text before the character. -/
def Step.copiesBefore (before : List Step) (step : Step) (front : List Char) (char : Char) : Nat :=
  if step.indents front char && startsLine (rawText before ++ front) then levelBehind before else 0

/-- The number of units before each character of a step. -/
def Step.copies (before : List Step) (step : Step) : List Nat :=
  List.zipWith (step.copiesBefore before) step.raw.inits step.raw

/-- The number of units before each character of the raw text of steps. -/
def copies (steps : List Step) : List Nat := (List.zipWith Step.copies steps.inits steps).flatten

/-- A text with some copies of a unit before each of its characters. -/
def insertUnits (unit : List Char) (counts : List Nat) (chars : List Char) : List Char :=
  (List.zipWith (fun count char => (List.replicate count unit).flatten ++ [char]) counts
    chars).flatten

/-- Behind some items the beginnings of a list have these items in front. -/
theorem zipWith_inits_append {α β : Type} (view : List α → α → β) (first second : List α) :
    List.zipWith view (first ++ second).inits (first ++ second) =
      List.zipWith view first.inits first ++
        List.zipWith (fun before => view (first ++ before)) second.inits second := by
  induction first generalizing view with
  | nil => rfl
  | cons item rest inductionHypothesis =>
      simp only [List.cons_append, List.inits_cons, List.zipWith_cons_cons, List.zipWith_map_left,
        inductionHypothesis]

@[simp] theorem Step.length_copies (before : List Step) (step : Step) :
    (step.copies before).length = step.raw.length := by
  simp [copies]

/-- The copies of a further step stand behind the others. -/
theorem copies_concat (steps : List Step) (step : Step) :
    copies (steps ++ [step]) = copies steps ++ step.copies steps := by
  rw [copies, zipWith_inits_append, List.flatten_append]
  simp [copies]

theorem rawText_concat (steps : List Step) (step : Step) :
    rawText (steps ++ [step]) = rawText steps ++ step.raw := by
  simp [rawText]

/-- A further step moves the level on. -/
theorem levelBehind_concat (steps : List Step) (step : Step) :
    levelBehind (steps ++ [step]) = step.move (levelBehind steps) := by
  simp [levelBehind]

/-- There is one number for each character. -/
theorem length_copies (steps : List Step) : (copies steps).length = (rawText steps).length := by
  induction steps using List.reverseRecOn with
  | nil => rfl
  | append_singleton steps step inductionHypothesis =>
      rw [copies_concat, rawText_concat, List.length_append, List.length_append,
        inductionHypothesis, Step.length_copies]

section Units

variable (unit : List Char)

@[simp] theorem insertUnits_nil (counts : List Nat) : insertUnits unit counts [] = [] := by
  simp [insertUnits]

@[simp] theorem insertUnits_cons (count : Nat) (counts : List Nat) (char : Char)
    (chars : List Char) : insertUnits unit (count :: counts) (char :: chars) =
      (List.replicate count unit).flatten ++ char :: insertUnits unit counts chars := by
  simp [insertUnits]

/-- Units are put into two texts one after the other. -/
theorem insertUnits_append {counts : List Nat} {chars : List Char}
    (same : counts.length = chars.length) (counts' : List Nat) (chars' : List Char) :
    insertUnits unit (counts ++ counts') (chars ++ chars') =
      insertUnits unit counts chars ++ insertUnits unit counts' chars' := by
  rw [insertUnits, List.zipWith_append same, List.flatten_append]
  rfl

/-- No units are put into a text when there is none before any character. -/
theorem insertUnits_zero (chars : List Char) :
    insertUnits unit (List.replicate chars.length 0) chars = chars := by
  induction chars with
  | nil => rfl
  | cons first rest inductionHypothesis =>
      rw [List.length_cons, List.replicate_succ, insertUnits_cons, inductionHypothesis]
      rfl

end Units

theorem putAll_level (layout : Layout) (chars : List Char) :
    (layout.putAll chars).level = layout.level := by
  induction chars generalizing layout with
  | nil => rfl
  | cons first rest inductionHypothesis => exact (inductionHypothesis _).trans (put_level _ _)

/-- Writing a text changes no level. -/
theorem putVerbatim_level (layout : Layout) (chars : List Char) :
    (layout.putVerbatim chars).level = layout.level := by
  unfold putVerbatim
  split
  · rfl
  · exact openLine_level layout

/-- Only indentations and their ends move the level. -/
theorem apply_level (layout : Layout) (step : Step) :
    (layout.apply step).level = step.move layout.level := by
  cases step with
  | indent => rfl
  | dedent => rfl
  | write text => exact putAll_level _ _
  | writeLine text => exact (put_level _ _).trans (putAll_level _ _)
  | verbatim text => exact putVerbatim_level _ _

/-- A layout stands behind a raw text when it wrote a text for it and sees the same line start. -/
structure Stands (unit : List Char) (level : Nat) (raw out : List Char) (layout : Layout) :
    Prop where
  unit : layout.unit = unit
  level : layout.level = level
  starts : layout.atLineStart = startsLine raw
  written : layout.written = out.reverse

section Stands

variable {unit raw out : List Char} {level : Nat} {layout : Layout}

/-- A fresh layout stands at the front of an empty text. -/
theorem stands_start (unit : String) : Stands unit.toList 0 [] [] (start unit) :=
  ⟨rfl, rfl, rfl, rfl⟩

/-- A layout that writes nothing stands where it stood, at any level. -/
theorem Stands.relevel (stands : Stands unit level raw out layout) (level' : Nat) :
    Stands unit level' (raw ++ []) (out ++ []) { layout with level := level' } := by
  rw [List.append_nil, List.append_nil]
  exact ⟨stands.unit, rfl, stands.starts, stands.written⟩

/-- Whether a line starts is told by the last character. -/
theorem startsLine_append (raw : List Char) {chars : List Char} (some : chars ≠ []) :
    startsLine (raw ++ chars) = endsLine chars := by
  simp [startsLine, some, endsLine_append_of_ne_nil raw some]

/-- Characters that are pushed with or without a margin. The margin leaves no trace in the raw
text. -/
theorem Stands.push (stands : Stands unit level raw out layout) (margin : List Char)
    {chars : List Char} (some : chars ≠ []) :
    Stands unit level (raw ++ chars) (out ++ (margin ++ chars))
      (layout.push (margin ++ chars)) where
  unit := stands.unit
  level := stands.level
  starts := by
    rw [push_atLineStart _ (by simp [some]), endsLine_append_of_ne_nil margin some,
      startsLine_append raw some]
  written := by simp [Layout.push, stands.written]

/-- The margin has a unit for every level. -/
theorem Stands.margin (stands : Stands unit level raw out layout) :
    layout.margin = (List.replicate level unit).flatten := by
  rw [Layout.margin, stands.unit, stands.level]

/-- A margin is put before a line that starts. -/
theorem Stands.openLine_push (stands : Stands unit level raw out layout) {chars : List Char}
    (some : chars ≠ []) :
    Stands unit level (raw ++ chars)
      (out ++ ((List.replicate (if startsLine raw then level else 0) unit).flatten ++ chars))
      (layout.openLine.push chars) := by
  have margin : (if layout.atLineStart then layout.margin else []) =
      (List.replicate (if startsLine raw then level else 0) unit).flatten := by
    rw [stands.starts, stands.margin]
    cases startsLine raw <;> rfl
  rw [openLine_eq, push_push, margin]
  exact stands.push _ some

/-- A character that starts a line gets its units, unless it ends the line at once. -/
theorem Stands.put (stands : Stands unit level raw out layout) (char : Char) :
    Stands unit level (raw ++ [char])
      (out ++ ((List.replicate (if char ≠ '\n' && startsLine raw then level else 0)
        unit).flatten ++ [char]))
      (layout.put char) := by
  by_cases feed : char = '\n'
  · have none : layout.put char = layout.push ([] ++ [char]) := by
      simp [Layout.put, feed, Layout.push]
    rw [none]
    simpa [feed] using stands.push [] (List.cons_ne_nil char [])
  · have opens : layout.put char = layout.openLine.push [char] := by
      simp [Layout.put, feed, Layout.push]
    rw [opens]
    simpa [feed] using stands.openLine_push (List.cons_ne_nil char [])

/-- Each character that is written has its own line start behind the characters before it. -/
theorem Stands.putAll (stands : Stands unit level raw out layout) (chars : List Char) :
    Stands unit level (raw ++ chars)
      (out ++ insertUnits unit (List.zipWith (fun front char =>
        if char ≠ '\n' && startsLine (raw ++ front) then level else 0) chars.inits chars) chars)
      (layout.putAll chars) := by
  induction chars generalizing raw out layout with
  | nil => simpa [Layout.putAll] using stands
  | cons first rest inductionHypothesis =>
      have later := inductionHypothesis (stands.put first)
      simp only [List.append_assoc, List.singleton_append] at later
      rw [List.inits_cons, List.zipWith_cons_cons, List.zipWith_map_left, insertUnits_cons,
        List.append_nil]
      exact later

/-- A verbatim text gets its units before its first character only. -/
theorem Stands.putVerbatim (stands : Stands unit level raw out layout) (chars : List Char) :
    Stands unit level (raw ++ chars)
      (out ++ insertUnits unit (List.zipWith (fun front _ =>
        if front.isEmpty && startsLine (raw ++ front) then level else 0) chars.inits chars) chars)
      (layout.putVerbatim chars) := by
  cases chars with
  | nil => simpa using stands
  | cons first rest =>
      have inside : List.zipWith (fun front _ =>
          if (first :: front).isEmpty && startsLine (raw ++ first :: front) then level else 0)
          rest.inits rest = List.replicate rest.length 0 := by
        refine List.ext_getElem (by simp) fun index _ _ => ?_
        simp
      rw [putVerbatim_eq _ (List.cons_ne_nil _ _), List.inits_cons, List.zipWith_cons_cons,
        List.zipWith_map_left, inside, insertUnits_cons, insertUnits_zero]
      simpa using stands.openLine_push (List.cons_ne_nil first rest)

/-- A step adds what it passes on, each character behind its units. -/
theorem Stands.apply {before : List Step}
    (stands : Stands unit (levelBehind before) (rawText before) out layout) (step : Step) :
    Stands unit (levelBehind (before ++ [step])) (rawText (before ++ [step]))
      (out ++ insertUnits unit (step.copies before) step.raw) (layout.apply step) := by
  rw [levelBehind_concat, rawText_concat]
  cases step with
  | indent =>
      have moved : layout.apply .indent = { layout with level := levelBehind before + 1 } := by
        rw [Layout.apply, stands.level]
      rw [moved]
      exact stands.relevel _
  | dedent =>
      have moved : layout.apply .dedent = { layout with level := levelBehind before - 1 } := by
        rw [Layout.apply, stands.level]
      rw [moved]
      exact stands.relevel _
  | write text => exact stands.putAll text.toList
  | writeLine text =>
      have line : layout.apply (.writeLine text) = layout.putAll (text.toList ++ ['\n']) :=
        (putAll_append layout text.toList ['\n']).symm
      rw [line]
      exact stands.putAll _
  | verbatim text => exact stands.putVerbatim text.toList

/-- After any steps the layout wrote their raw text with the units in it. -/
theorem stands_run (unit : String) (steps : List Step) :
    Stands unit.toList (levelBehind steps) (rawText steps)
      (insertUnits unit.toList (copies steps) (rawText steps)) ((start unit).run steps) := by
  induction steps using List.reverseRecOn with
  | nil => exact stands_start unit
  | append_singleton steps step inductionHypothesis =>
      have stands := inductionHypothesis.apply step
      rw [← insertUnits_append _ (length_copies steps), ← copies_concat, ← rawText_concat] at stands
      rw [run_append]
      exact stands

end Stands

end Layout

end FrontEnd
