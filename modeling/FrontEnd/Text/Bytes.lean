/-
This file measures a text in UTF-8 bytes and cuts it at byte offsets.
-/

namespace FrontEnd.Text

/-- The size of a text is the number of its UTF-8 bytes. -/
def byteSize : List Char → Nat
  | [] => 0
  | char :: rest => char.utf8Size + byteSize rest

@[simp] theorem byteSize_nil : byteSize [] = 0 := rfl

@[simp] theorem byteSize_cons (char : Char) (rest : List Char) :
    byteSize (char :: rest) = char.utf8Size + byteSize rest := rfl

/-- The sizes of two texts add up. -/
@[simp] theorem byteSize_append (first second : List Char) :
    byteSize (first ++ second) = byteSize first + byteSize second := by
  induction first with
  | nil => simp
  | cons char rest inductionHypothesis =>
      simp [inductionHypothesis, Nat.add_assoc]

/-- The order of characters makes no difference to their size. -/
@[simp] theorem byteSize_reverse (chars : List Char) :
    byteSize chars.reverse = byteSize chars := by
  induction chars with
  | nil => rfl
  | cons char rest inductionHypothesis =>
      simp [inductionHypothesis, Nat.add_comm]

/-- A cut exists only between two characters, or at either end. -/
def splitBytes? : Nat → List Char → Option (List Char × List Char)
  | 0, chars => some ([], chars)
  | _ + 1, [] => none
  | offset + 1, char :: rest =>
      if char.utf8Size ≤ offset + 1 then
        (splitBytes? (offset + 1 - char.utf8Size) rest).map fun (before, after) =>
          (char :: before, after)
      else
        none

/-- The two parts of a cut are the text, and the first has the requested size. -/
theorem splitBytes?_sound {offset : Nat} {chars before after : List Char}
    (cut : splitBytes? offset chars = some (before, after)) :
    chars = before ++ after ∧ byteSize before = offset := by
  induction chars generalizing offset before after with
  | nil =>
      cases offset with
      | zero =>
          obtain ⟨rfl, rfl⟩ : [] = before ∧ [] = after := by simpa [splitBytes?] using cut
          simp
      | succ offset => simp [splitBytes?] at cut
  | cons char rest inductionHypothesis =>
      cases offset with
      | zero =>
          obtain ⟨rfl, rfl⟩ : [] = before ∧ char :: rest = after := by
            simpa [splitBytes?] using cut
          simp
      | succ offset =>
          simp only [splitBytes?] at cut
          split at cut
          · rename_i fits
            obtain ⟨⟨inner, tail⟩, innerCut, same⟩ := Option.map_eq_some_iff.1 cut
            obtain ⟨rfl, rfl⟩ : char :: inner = before ∧ tail = after := by simpa using same
            obtain ⟨rfl, size⟩ := inductionHypothesis innerCut
            refine ⟨rfl, ?_⟩
            rw [byteSize_cons, size]
            omega
          · simp at cut

/-- Every way to write a text in two parts is a cut. -/
theorem splitBytes?_append (before after : List Char) :
    splitBytes? (byteSize before) (before ++ after) = some (before, after) := by
  induction before with
  | nil => simp [splitBytes?]
  | cons char rest inductionHypothesis =>
      have positive := char.utf8Size_pos
      obtain ⟨size, sizeEq⟩ : ∃ size, char.utf8Size + byteSize rest = size + 1 :=
        ⟨char.utf8Size + byteSize rest - 1, by omega⟩
      have remaining : size + 1 - char.utf8Size = byteSize rest := by omega
      rw [byteSize_cons, sizeEq, List.cons_append, splitBytes?, if_pos (by omega), remaining,
        inductionHypothesis]
      rfl

/-- Two ways to write a text in two parts are one when the first parts have the same size. -/
theorem append_inj_of_byteSize {before after before' after' : List Char}
    (same : before ++ after = before' ++ after') (size : byteSize before = byteSize before') :
    before = before' ∧ after = after' := by
  have cut := splitBytes?_append before after
  rw [same, size, splitBytes?_append] at cut
  obtain ⟨rfl, rfl⟩ := Prod.mk.inj (Option.some.inj cut)
  exact ⟨rfl, rfl⟩

/-- An offset is a boundary when the text can be cut there. -/
def isBoundary (offset : Nat) (chars : List Char) : Bool :=
  (splitBytes? offset chars).isSome

/-- A slice has both ends on boundaries, in order. -/
def slice? (start stop : Nat) (chars : List Char) : Option (List Char) :=
  if start ≤ stop then do
    let (_, after) ← splitBytes? start chars
    let (middle, _) ← splitBytes? (stop - start) after
    return middle
  else
    none

/-- The greatest boundary that does not pass the limit. -/
def floorBoundary : Nat → List Char → Nat
  | _, [] => 0
  | limit, char :: rest =>
      if char.utf8Size ≤ limit then
        char.utf8Size + floorBoundary (limit - char.utf8Size) rest
      else
        0

end FrontEnd.Text
