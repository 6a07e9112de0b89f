/-
This file lays out lines that stand below one another by their indentation. The text of such lines
tells which of them stand below which.
-/

import FrontEnd.Proofs.Layout
import FrontEnd.Proofs.Text.Quoting
import FrontEnd.Tree.Outline

namespace FrontEnd

/-- A line with the lines below it, and the rest of the lines on its own level. -/
inductive Sketch where
  | blank
  | line (label : String) (below rest : Sketch)

namespace Sketch

/-- The indentation of a line is two spaces for each level. -/
def margin (level : Nat) : List Char := (List.replicate level "  ".toList).flatten

/-- A line of a sketch stands behind the margin of its level. -/
def row (level : Nat) (label : String) : List Char := margin level ++ (label.toList ++ ['\n'])

/-- The text of some lines. Those below a line are one level deeper. -/
def text : Nat → Sketch → List Char
  | _, blank => []
  | level, line label below rest =>
      row level label ++ (text (level + 1) below ++ text level rest)

/-- A label can be told from the indentation before it and from the line behind it. -/
structure IsLabel (label : String) : Prop where
  opens : label.toList.head?.any (· != ' ')
  noFeed : '\n' ∉ label.toList

instance (label : String) : Decidable (IsLabel label) :=
  decidable_of_iff (label.toList.head?.any (· != ' ') ∧ '\n' ∉ label.toList)
    ⟨fun ⟨opens, noFeed⟩ => ⟨opens, noFeed⟩, fun isLabel => ⟨isLabel.opens, isLabel.noFeed⟩⟩

/-- A label begins with a character that is no blank. -/
theorem IsLabel.exists_cons {label : String} (isLabel : IsLabel label) :
    ∃ first others, label.toList = first :: others ∧ first ≠ ' ' := by
  have opens := isLabel.opens
  cases chars : label.toList with
  | nil => simp [chars] at opens
  | cons first others => exact ⟨first, others, rfl, by simpa [chars] using opens⟩

/-- A label may go on with any text on its line. -/
theorem IsLabel.append {label more : String} (isLabel : IsLabel label)
    (noFeed : '\n' ∉ more.toList) : IsLabel (label ++ more) := by
  obtain ⟨first, others, chars, dark⟩ := isLabel.exists_cons
  refine ⟨by simpa [chars] using dark, ?_⟩
  rw [String.toList_append, List.mem_append]
  exact not_or.2 ⟨isLabel.noFeed, noFeed⟩

/-- All lines of a legible sketch have labels. -/
def Legible : Sketch → Prop
  | blank => True
  | line label below rest => IsLabel label ∧ below.Legible ∧ rest.Legible

variable {level level' : Nat} {label label' : String} {rest rest' : List Char}

/-- Every level adds two blanks to the margin. -/
theorem margin_succ (level : Nat) : margin (level + 1) = ' ' :: ' ' :: margin level := by
  simp [margin, List.replicate_succ]

/-- The first line of a text can be told from the text. -/
theorem row_append_inj (isLabel : IsLabel label) (isLabel' : IsLabel label')
    (same : row level label ++ rest = row level' label' ++ rest') :
    level = level' ∧ label = label' ∧ rest = rest' := by
  obtain ⟨first, others, chars, dark⟩ := isLabel.exists_cons
  obtain ⟨first', others', chars', dark'⟩ := isLabel'.exists_cons
  induction level generalizing level' with
  | zero =>
      cases level' with
      | zero =>
          have split : label.toList ++ '\n' :: rest = label'.toList ++ '\n' :: rest' := by
            simpa [row, margin] using same
          obtain ⟨labels, behind⟩ := Text.append_mark_inj isLabel.noFeed isLabel'.noFeed split
          exact ⟨rfl, String.toList_inj.1 labels, behind⟩
      | succ level' =>
          rw [row, row, margin_succ, chars] at same
          exact absurd (List.cons.inj same).1 dark
  | succ level inductionHypothesis =>
      cases level' with
      | zero =>
          rw [row, row, margin_succ, chars'] at same
          exact absurd (List.cons.inj same).1.symm dark'
      | succ level' =>
          rw [row, row, margin_succ, margin_succ] at same
          obtain ⟨levels, found⟩ :=
            inductionHypothesis (List.cons.inj (List.cons.inj same).2).2
          exact ⟨congrArg (· + 1) levels, found⟩

/-- What stands behind lines of a level is nothing, or starts with a line of a lower level. -/
def Behind (level : Nat) (rest : List Char) : Prop :=
  rest = [] ∨ ∃ lower label others, lower < level ∧ IsLabel label ∧ rest = row lower label ++ others

/-- What stands behind the lines of a level stands behind those of a deeper one. -/
theorem Behind.succ (behind : Behind level rest) : Behind (level + 1) rest :=
  behind.imp_right fun ⟨lower, label, others, low, isLabel, same⟩ =>
    ⟨lower, label, others, Nat.lt_succ_of_lt low, isLabel, same⟩

/-- No line of a level stands behind the lines of this level. -/
theorem Behind.ne_row (behind : Behind level rest) (isLabel : IsLabel label) (others : List Char) :
    rest ≠ row level label ++ others := by
  rintro rfl
  rcases behind with none | ⟨lower, label', others', low, isLabel', same⟩
  · simp [row] at none
  · obtain ⟨rfl, -⟩ := row_append_inj isLabel isLabel' same
    exact absurd low (Nat.lt_irrefl _)

/-- The lines of a level stand behind those one level deeper. -/
theorem behind_text {sketch : Sketch} (legible : sketch.Legible) (behind : Behind level rest) :
    Behind (level + 1) (sketch.text level ++ rest) := by
  cases sketch with
  | blank => exact behind.succ
  | line label below others =>
      refine .inr ⟨level, label, below.text (level + 1) ++ (others.text level ++ rest),
        Nat.lt_succ_self level, legible.1, ?_⟩
      simp only [text, List.append_assoc]

/-- Legible lines can be told from their text and what stands behind it. -/
theorem text_append_inj {sketch sketch' : Sketch} (legible : sketch.Legible)
    (legible' : sketch'.Legible) (behind : Behind level rest) (behind' : Behind level rest')
    (same : sketch.text level ++ rest = sketch'.text level ++ rest') :
    sketch = sketch' ∧ rest = rest' := by
  induction sketch generalizing level sketch' rest rest' with
  | blank =>
      cases sketch' with
      | blank => exact ⟨rfl, same⟩
      | line label' below' others' =>
          rw [text, text, List.append_assoc] at same
          exact absurd same (behind.ne_row legible'.1 _)
  | line label below others belowHypothesis othersHypothesis =>
      obtain ⟨isLabel, legibleBelow, legibleOthers⟩ := legible
      cases sketch' with
      | blank =>
          rw [text, text, List.append_assoc] at same
          exact absurd same.symm (behind'.ne_row isLabel _)
      | line label' below' others' =>
          obtain ⟨isLabel', legibleBelow', legibleOthers'⟩ := legible'
          simp only [text, List.append_assoc] at same
          obtain ⟨-, rfl, tails⟩ := row_append_inj isLabel isLabel' same
          obtain ⟨rfl, behindBelow⟩ := belowHypothesis legibleBelow legibleBelow'
            (behind_text legibleOthers behind) (behind_text legibleOthers' behind') tails
          obtain ⟨rfl, rfl⟩ := othersHypothesis legibleOthers legibleOthers' behind behind'
            behindBelow
          exact ⟨rfl, rfl⟩

/-- A legible sketch can be read off its text. -/
theorem text_injective {sketch sketch' : Sketch} (legible : sketch.Legible)
    (legible' : sketch'.Legible) (same : sketch.text level = sketch'.text level) :
    sketch = sketch' :=
  (text_append_inj legible legible' (.inl rfl) (.inl rfl) (congrArg (· ++ []) same)).1

/-- The lines of one sketch after those of another, on one level. -/
def append : Sketch → Sketch → Sketch
  | blank, second => second
  | line label below rest, second => line label below (rest.append second)

/-- The texts of two sketches follow each other. -/
theorem text_append (first second : Sketch) :
    (first.append second).text level = first.text level ++ second.text level := by
  induction first with
  | blank => rfl
  | line label below rest _ inductionHypothesis =>
      simp only [append, text, inductionHypothesis, List.append_assoc]

/-- Two legible sketches are legible together. -/
theorem legible_append {first second : Sketch} (legible : first.Legible)
    (legible' : second.Legible) : (first.append second).Legible := by
  induction first with
  | blank => exact legible'
  | line label below rest _ inductionHypothesis =>
      exact ⟨legible.1, legible.2.1, inductionHypothesis legible.2.2⟩

/-- A single line with the lines below it. -/
def nested (label : String) (below : Sketch) : Sketch := line label below blank

/-- A line for a value. -/
def field (name value : String) : Sketch := nested (name ++ ": " ++ value) blank

/-- A sketch below its name. -/
def child (name : String) (below : Sketch) : Sketch := nested (name ++ ":") below

/-- A sketch below its name, or nothing where there is none. -/
def optional (name : String) (below : Option Sketch) : Sketch :=
  (below.map (child name)).getD blank

/-- Sketches on one level, in order. -/
def flatten (sketches : List Sketch) : Sketch := sketches.foldr append blank

/-- A list has its items below its name, or brackets behind it where it has none. -/
def children (name : String) (items : List Sketch) : Sketch :=
  if items.isEmpty then nested (name ++ ": []") blank else child name (flatten items)

/-- A field shows its value. -/
theorem field_inj {name value value' : String} (same : field name value = field name value') :
    value = value' :=
  (String.append_right_inj _).1 (Sketch.line.inj same).1

/-- Two parts that may be missing can be told from their lines, which have different names. -/
theorem optional_append_inj {name name' : String} (differ : name ≠ name')
    {first second first' second' : Option Sketch}
    (same : (optional name first).append (optional name' first') =
      (optional name second).append (optional name' second')) :
    first = second ∧ first' = second' := by
  have labels : name ++ ":" ≠ name' ++ ":" := fun same => differ ((String.append_left_inj _).1 same)
  have last : ∀ third fourth : Option Sketch, optional name' third = optional name' fourth →
      third = fourth := by
    intro third fourth same
    cases third <;> cases fourth
    · rfl
    · cases same
    · cases same
    · exact congrArg some (Sketch.line.inj same).2.1
  cases first with
  | none =>
      cases second with
      | none => exact ⟨rfl, last _ _ same⟩
      | some second =>
          cases first' with
          | none => cases same
          | some first' => exact absurd (Sketch.line.inj same).1.symm labels
  | some first =>
      cases second with
      | none =>
          cases second' with
          | none => cases same
          | some second' => exact absurd (Sketch.line.inj same).1 labels
      | some second =>
          obtain ⟨-, below, rest⟩ := Sketch.line.inj same
          exact ⟨congrArg some below, last _ _ rest⟩

/-- A sketch may follow the lines below a label. -/
theorem nested_append (label : String) (below rest : Sketch) :
    (nested label below).append rest = line label below rest := rfl

/-- Lists of items are the same when they are shown by the same lines and each item is shown by a
line with the lines below it. -/
theorem children_inj {α β : Type} {name : String} {view : α → Sketch} {image : α → β}
    (single : ∀ item, ∃ label below, view item = nested label below) {items items' : List α}
    (told : ∀ item ∈ items, ∀ item' ∈ items', view item = view item' → image item = image item')
    (same : children name (items.map view) = children name (items'.map view)) :
    items.map image = items'.map image := by
  have listed : ∀ label label' : String, name ++ label = name ++ label' → label = label' :=
    fun _ _ => (String.append_right_inj name).1
  have flat : flatten (items.map view) = flatten (items'.map view) := by
    unfold children at same
    cases items with
    | nil =>
        cases items' with
        | nil => rfl
        | cons item' others' => exact absurd (listed _ _ (Sketch.line.inj same).1) (by decide)
    | cons item others =>
        cases items' with
        | nil => exact absurd (listed _ _ (Sketch.line.inj same).1) (by decide)
        | cons item' others' => exact (Sketch.line.inj same).2.1
  clear same
  induction items generalizing items' with
  | nil =>
      cases items' with
      | nil => rfl
      | cons item' others' =>
          obtain ⟨label, below, shown⟩ := single item'
          simp only [flatten, List.map_nil, List.map_cons, List.foldr_nil, List.foldr_cons, shown,
            nested_append] at flat
          cases flat
  | cons item others inductionHypothesis =>
      obtain ⟨label, below, shown⟩ := single item
      cases items' with
      | nil =>
          simp only [flatten, List.map_nil, List.map_cons, List.foldr_nil, List.foldr_cons, shown,
            nested_append] at flat
          cases flat
      | cons item' others' =>
          obtain ⟨label', below', shown'⟩ := single item'
          simp only [flatten, List.map_cons, List.foldr_cons, shown, shown', nested_append] at flat
          obtain ⟨labels, belows, rests⟩ := Sketch.line.inj flat
          have first := told item (by simp) item' (by simp) (by rw [shown, shown', labels, belows])
          have later := inductionHypothesis (fun one member one' member' =>
            told one (List.mem_cons_of_mem _ member) one' (List.mem_cons_of_mem _ member')) rests
          rw [List.map_cons, List.map_cons, first, later]

/-- Steps draw a legible sketch when they write its lines wherever a line starts. -/
structure Drawn (steps : List Layout.Step) (sketch : Sketch) : Prop where
  legible : sketch.Legible
  lays : ∀ layout : Layout, layout.unit = "  ".toList → layout.atLineStart →
    layout.run steps = layout.push (sketch.text layout.level) ∧
      (layout.push (sketch.text layout.level)).atLineStart

variable {steps steps' : List Layout.Step} {sketch sketch' : Sketch} {name : String}

theorem drawn_blank : Drawn [] blank := ⟨trivial, fun _ _ starts => ⟨rfl, starts⟩⟩

/-- Steps that draw two sketches draw both, one after the other. -/
theorem Drawn.append (drawn : Drawn steps sketch) (drawn' : Drawn steps' sketch') :
    Drawn (steps ++ steps') (sketch.append sketch') := by
  refine ⟨legible_append drawn.legible drawn'.legible, fun layout unit starts => ?_⟩
  obtain ⟨first, between⟩ := drawn.lays layout unit starts
  obtain ⟨second, ends⟩ := drawn'.lays (layout.push (sketch.text layout.level)) unit between
  rw [Layout.run_append, first, second, text_append, Layout.push_push]
  rw [Layout.push_push] at ends
  exact ⟨rfl, ends⟩

/-- Writing a line draws its label. -/
theorem drawn_line (isLabel : IsLabel label) : Drawn [.writeLine label] (nested label blank) := by
  refine ⟨⟨isLabel, trivial, trivial⟩, fun layout unit starts => ?_⟩
  obtain ⟨first, others, chars, -⟩ := isLabel.exists_cons
  have filled : label.toList ≠ [] := by simp [chars]
  have wrote : layout.putAll label.toList = layout.push (margin layout.level ++ label.toList) := by
    rw [Layout.putAll_eq layout isLabel.noFeed, Layout.putVerbatim_eq layout filled,
      Layout.openLine_eq, if_pos starts, Layout.push_push, Layout.margin, unit, margin]
  have fed : ∀ before : Layout, before.put '\n' = before.push ['\n'] := fun _ => rfl
  have row : (nested label blank).text layout.level =
      margin layout.level ++ label.toList ++ ['\n'] := by
    simp [nested, text, Sketch.row]
  refine ⟨?_, ?_⟩
  · rw [row, ← Layout.push_push, ← wrote]
    exact fed _
  · rw [row, Layout.push_atLineStart _ (by simp)]
    simp [Layout.endsLine]

/-- Steps between an indent and a dedent draw the lines below the one before them. -/
theorem Drawn.nested (drawn : Drawn steps sketch) (isLabel : IsLabel label) :
    Drawn ([.writeLine label, .indent] ++ steps ++ [.dedent]) (nested label sketch) := by
  refine ⟨⟨isLabel, drawn.legible, trivial⟩, fun layout unit starts => ?_⟩
  obtain ⟨first, between⟩ := (drawn_line isLabel).lays layout unit starts
  let written := layout.push ((Sketch.nested label blank).text layout.level)
  let deeper : Layout := { written with level := layout.level + 1 }
  obtain ⟨below, ends⟩ := drawn.lays deeper unit between
  have all : (Sketch.nested label sketch).text layout.level =
      (Sketch.nested label blank).text layout.level ++ sketch.text deeper.level := by
    simp [Sketch.nested, text, deeper]
  have indented : layout.run [.writeLine label, .indent] = deeper := by
    change (layout.run [.writeLine label]).apply .indent = deeper
    rw [first]
    rfl
  rw [Layout.run_append, Layout.run_append, indented, below, all, ← Layout.push_push]
  exact ⟨rfl, ends⟩

/-- A field is drawn as a line. -/
theorem drawn_field {value : String} (isLabel : IsLabel name) (noFeed : '\n' ∉ value.toList) :
    Drawn (Outline.field name value) (field name value) :=
  drawn_line ((isLabel.append (by decide)).append noFeed)

/-- A part is drawn below its name. -/
theorem Drawn.child (drawn : Drawn steps sketch) (isLabel : IsLabel name) :
    Drawn (Outline.child name steps) (child name sketch) :=
  drawn.nested (isLabel.append (by decide))

/-- A part is drawn where there is one. -/
theorem drawn_optional {α : Type} {outline : α → List Layout.Step} {view : α → Sketch}
    (isLabel : IsLabel name) {value : Option α}
    (drawn : ∀ inner ∈ value, Drawn (outline inner) (view inner)) :
    Drawn (Outline.optional name (value.map outline)) (optional name (value.map view)) := by
  cases value with
  | none => exact drawn_blank
  | some inner => exact (drawn inner rfl).child isLabel

/-- The items of a list are drawn below its name. -/
theorem drawn_children {α : Type} {outline : α → List Layout.Step} {view : α → Sketch}
    (isLabel : IsLabel name) {items : List α}
    (drawn : ∀ item ∈ items, Drawn (outline item) (view item)) :
    Drawn (Outline.children name (items.map outline)) (children name (items.map view)) := by
  have all : ∀ items : List α, (∀ item ∈ items, Drawn (outline item) (view item)) →
      Drawn (items.map outline).flatten (flatten (items.map view)) := by
    intro items drawn
    induction items with
    | nil => exact drawn_blank
    | cons item others inductionHypothesis =>
        obtain ⟨first, later⟩ := List.forall_mem_cons.1 drawn
        exact first.append (inductionHypothesis later)
  cases items with
  | nil => exact drawn_line (isLabel.append (by decide))
  | cons item others => exact (all _ drawn).child isLabel

/-- The printed text of steps is the text of what they draw. -/
theorem Drawn.print (drawn : Drawn steps sketch) :
    Layout.print steps = String.ofList (sketch.text 0) := by
  obtain ⟨lays, -⟩ := drawn.lays (Layout.start "  ") rfl rfl
  rw [Layout.print, lays]
  simp [Layout.text, Layout.push, Layout.start]

/-- Steps that print the same text draw the same sketch. -/
theorem Drawn.print_inj (drawn : Drawn steps sketch) (drawn' : Drawn steps' sketch')
    (same : Layout.print steps = Layout.print steps') : sketch = sketch' := by
  rw [drawn.print, drawn'.print] at same
  exact text_injective drawn.legible drawn'.legible (String.ofList_injective same)

end Sketch

end FrontEnd
