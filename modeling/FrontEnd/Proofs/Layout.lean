/-
This file describes the text that steps lay out. Steps that end no line of their own write the same
text at every level, up to the indentation after a line feed in a verbatim text.
-/

import FrontEnd.Layout

namespace FrontEnd

namespace Layout

/-- The layout after characters that are not indented. -/
def push (layout : Layout) (chars : List Char) : Layout :=
  { layout with written := chars.reverse ++ layout.written }

@[simp] theorem push_nil (layout : Layout) : layout.push [] = layout := rfl

/-- Characters that are written after each other are written together. -/
@[simp] theorem push_push (layout : Layout) (first second : List Char) :
    (layout.push first).push second = layout.push (first ++ second) := by
  simp [push]

@[simp] theorem push_margin (layout : Layout) (chars : List Char) :
    (layout.push chars).margin = layout.margin := rfl

/-- Whether the last character of a text is a line feed. -/
def endsLine (chars : List Char) : Bool := chars.getLast? = some '\n'

/-- Whether a line starts is told by the last character. -/
theorem push_atLineStart (layout : Layout) {chars : List Char} (some : chars ≠ []) :
    (layout.push chars).atLineStart = endsLine chars := by
  obtain ⟨front, last, rfl⟩ := List.eq_nil_or_concat chars |>.resolve_left some
  simp [push, atLineStart, endsLine]

/-- A margin is written where a line starts, and nowhere else. -/
theorem openLine_eq (layout : Layout) :
    layout.openLine = layout.push (if layout.atLineStart then layout.margin else []) := by
  unfold openLine push
  split <;> simp

/-- A verbatim text gets a margin at its beginning only. -/
theorem putVerbatim_eq (layout : Layout) {chars : List Char} (some : chars ≠ []) :
    layout.putVerbatim chars = layout.openLine.push chars := by
  cases chars with
  | nil => exact absurd rfl some
  | cons first rest => rfl

@[simp] theorem putVerbatim_nil (layout : Layout) : layout.putVerbatim [] = layout := rfl

@[simp] theorem putVerbatim_margin (layout : Layout) (chars : List Char) :
    (layout.putVerbatim chars).margin = layout.margin := by
  unfold putVerbatim
  split
  · rfl
  · rw [openLine_eq]
    rfl

/-- Within a line, characters are written as they are. -/
theorem putVerbatim_within {layout : Layout} (within : layout.atLineStart = false)
    (chars : List Char) : layout.putVerbatim chars = layout.push chars := by
  cases chars with
  | nil => rfl
  | cons first rest =>
      rw [putVerbatim_eq _ (List.cons_ne_nil _ _), openLine_eq, within]
      simp

/-- After a text that ends no line, the next one is written as it is. -/
theorem putVerbatim_append (layout : Layout) {first second : List Char}
    (whole : endsLine first = false) :
    (layout.putVerbatim first).putVerbatim second = layout.putVerbatim (first ++ second) := by
  cases first with
  | nil => rfl
  | cons char rest =>
      have within : (layout.openLine.push (char :: rest)).atLineStart = false := by
        rw [push_atLineStart _ (List.cons_ne_nil _ _), whole]
      rw [putVerbatim_eq _ (List.cons_ne_nil _ _), putVerbatim_within within, push_push,
        putVerbatim_eq _ (by simp)]

/-- A single character but a line feed is put as a verbatim text is. -/
theorem put_eq (layout : Layout) {char : Char} (noFeed : char ≠ '\n') :
    layout.put char = layout.putVerbatim [char] := by
  simp [put, noFeed, putVerbatim]

/-- A text without line feeds is written like a verbatim one. -/
theorem putAll_eq (layout : Layout) {chars : List Char} (noFeed : '\n' ∉ chars) :
    layout.putAll chars = layout.putVerbatim chars := by
  induction chars generalizing layout with
  | nil => rfl
  | cons first rest inductionHypothesis =>
      have firstNoFeed : first ≠ '\n' := fun same => noFeed (by simp [same])
      have restNoFeed : '\n' ∉ rest := fun member => noFeed (List.mem_cons_of_mem _ member)
      have whole : endsLine [first] = false := by simp [endsLine, firstNoFeed]
      show (layout.put first).putAll rest = _
      rw [inductionHypothesis _ restNoFeed, put_eq _ firstNoFeed, putVerbatim_append _ whole]
      rfl

/-- The text that a step writes within a line. A margin comes after a verbatim text that ends a
line. -/
@[simp] def Step.plain (margin : List Char) : Step → List Char
  | .indent | .dedent => []
  | .write text => text.toList
  | .writeLine text => text.toList ++ ['\n']
  | .verbatim text => text.toList ++ if endsLine text.toList then margin else []

/-- The text that steps write within a line. -/
def plain (margin : List Char) (steps : List Step) : List Char := steps.flatMap (Step.plain margin)

@[simp] theorem plain_nil (margin : List Char) : plain margin [] = [] := rfl

@[simp] theorem plain_cons (margin : List Char) (step : Step) (steps : List Step) :
    plain margin (step :: steps) = step.plain margin ++ plain margin steps := rfl

/-- The plain texts of two lists of steps follow each other. -/
@[simp] theorem plain_append (margin : List Char) (first second : List Step) :
    plain margin (first ++ second) = plain margin first ++ plain margin second :=
  List.flatMap_append

/-- Steps stay within a line when they write their plain text and do not end the line. -/
structure Inline (steps : List Step) : Prop where
  run : ∀ layout : Layout, layout.run steps = layout.putVerbatim (plain layout.margin steps)
  whole : ∀ margin, endsLine (plain margin steps) = false

/-- Whether a line ends is told by the last text. -/
theorem endsLine_append_of_ne_nil (first : List Char) {second : List Char} (some : second ≠ []) :
    endsLine (first ++ second) = endsLine second := by
  cases second with
  | nil => exact absurd rfl some
  | cons char rest => simp [endsLine, List.getLast?_append]

/-- An empty text behind a line that goes on does not end it. -/
theorem endsLine_append {first : List Char} (whole : endsLine first = false)
    (second : List Char) : endsLine (first ++ second) = endsLine second := by
  cases second with
  | nil => rw [List.append_nil, whole, endsLine, List.getLast?_nil, decide_eq_false (by simp)]
  | cons char rest => exact endsLine_append_of_ne_nil first (List.cons_ne_nil _ _)

theorem Inline.nil : Inline [] := ⟨fun _ => rfl, fun _ => rfl⟩

/-- A text without line feeds stays on its line. -/
theorem Inline.write {text : String} (noFeed : '\n' ∉ text.toList) : Inline [.write text] := by
  refine ⟨fun layout => ?_, fun margin => ?_⟩
  · rw [plain_cons, plain_nil, List.append_nil]
    exact putAll_eq layout noFeed
  · rw [plain_cons, plain_nil, List.append_nil, ← Bool.not_eq_true, endsLine, decide_eq_true_eq]
    exact fun last => noFeed (List.mem_of_getLast? last)

/-- Steps that stay on their line stay on it one after the other. -/
theorem Inline.append {first second : List Step} (firstInline : Inline first)
    (secondInline : Inline second) : Inline (first ++ second) := by
  refine ⟨fun layout => ?_, fun margin => ?_⟩
  · rw [run_append, firstInline.run, secondInline.run, putVerbatim_margin, plain_append,
      putVerbatim_append _ (firstInline.whole _)]
  · rw [plain_append]
    rw [endsLine_append (firstInline.whole margin), secondInline.whole margin]

theorem Inline.cons {text : String} {steps : List Step} (noFeed : '\n' ∉ text.toList)
    (inline : Inline steps) : Inline (.write text :: steps) :=
  (Inline.write noFeed).append inline

/-- A verbatim text can hold line feeds when its quotes hold none. -/
theorem Inline.quoted {quote value : String} (some : quote.toList ≠ [])
    (noFeed : '\n' ∉ quote.toList) :
    Inline [.write quote, .verbatim value, .write quote] := by
  have opening := Inline.write noFeed
  have openingWhole : endsLine quote.toList = false := by simpa using opening.whole []
  have filled : quote.toList ++ value.toList ≠ [] := by simp [some]
  refine ⟨fun layout => ?_, fun margin => ?_⟩
  · have writes : ∀ before : Layout, before.run [.write quote] = before.putVerbatim quote.toList :=
      fun before => putAll_eq before noFeed
    show ((layout.run [.write quote]).putVerbatim value.toList).run [.write quote] = _
    rw [writes, writes, putVerbatim_append _ openingWhole, putVerbatim_eq _ filled,
      putVerbatim_eq _ some, openLine_eq (push _ _), push_atLineStart _ filled,
      endsLine_append openingWhole, putVerbatim_eq _ (by simp [some])]
    simp [openLine_eq]
  · simp only [plain_cons, plain_nil, Step.plain, List.append_nil]
    rw [endsLine_append openingWhole, endsLine_append_of_ne_nil _ some, openingWhole]

end Layout

end FrontEnd
