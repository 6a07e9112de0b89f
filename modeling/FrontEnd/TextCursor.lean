/-
This file moves a cursor over a text. The cursor never leaves a character boundary, because it
keeps the characters on either side of it.
-/

import FrontEnd.Text.Bytes

namespace FrontEnd

/-- The characters before the cursor stand last one first. -/
structure TextCursor where
  passed : List Char
  rest : List Char
  deriving DecidableEq, Repr

namespace TextCursor

/-- A fresh cursor stands before its text. -/
def ofText (text : String) : TextCursor := ⟨[], text.toList⟩

/-- What the cursor passed and what is left are the whole text. -/
def text (cursor : TextCursor) : List Char := cursor.passed.reverse ++ cursor.rest

/-- The position is a byte offset into the text. -/
def position (cursor : TextCursor) : Nat := Text.byteSize cursor.passed

/-- Whether any characters are left. -/
def hasNext (cursor : TextCursor) : Bool := !cursor.rest.isEmpty

/-- The character that many characters ahead. -/
def peek? (cursor : TextCursor) (distance : Nat) : Option Char := cursor.rest[distance]?

/-- What a cursor can be asked to eat. -/
inductive Pattern where
  | single (wanted : Char)
  | word (wanted : List Char)
  | satisfying (accepts : Char → Bool)

/-- The characters at the front of a text that a pattern takes. -/
def Pattern.match? : Pattern → List Char → Option (List Char)
  | .single wanted, first :: _ => if first = wanted then some [first] else none
  | .satisfying accepts, first :: _ => if accepts first then some [first] else none
  | .word wanted, chars => if wanted.isPrefixOf chars then some wanted else none
  | _, [] => none

/-- Moves past a number of characters. -/
def skip (cursor : TextCursor) (count : Nat) : TextCursor where
  passed := (cursor.rest.take count).reverse ++ cursor.passed
  rest := cursor.rest.drop count

/-- Skipping loses nothing of the text. -/
@[simp] theorem text_skip (cursor : TextCursor) (count : Nat) :
    (cursor.skip count).text = cursor.text := by
  simp [skip, text]

/-- Skipping moves the cursor by the size of what it passes. -/
@[simp] theorem position_skip (cursor : TextCursor) (count : Nat) :
    (cursor.skip count).position =
      cursor.position + Text.byteSize (cursor.rest.take count) := by
  simp [skip, position, Nat.add_comm]

/-- A cursor stands before what is left of its text behind its position. -/
theorem rest_eq {cursor : TextCursor} {before after : List Char}
    (text : cursor.text = before ++ after) (position : cursor.position = Text.byteSize before) :
    cursor.rest = after := by
  have passed : Text.byteSize cursor.passed.reverse = Text.byteSize before := by
    rw [Text.byteSize_reverse]
    exact position
  have whole : cursor.passed.reverse ++ cursor.rest = before ++ after := text
  exact (Text.append_inj_of_byteSize whole passed).2

/-- Eating moves the cursor past what the pattern takes, if the pattern fits. -/
def eat (cursor : TextCursor) (pattern : Pattern) : Bool × TextCursor :=
  match pattern.match? cursor.rest with
  | some taken => (true, cursor.skip taken.length)
  | none => (false, cursor)

/-- Skips the characters up to the first one that is not accepted. -/
def eatWhile (cursor : TextCursor) (accepts : Char → Bool) : TextCursor :=
  cursor.skip (cursor.rest.takeWhile accepts).length

/-- Takes the next character, if there is one. -/
def advance (cursor : TextCursor) : Option Char × TextCursor :=
  match cursor.rest with
  | [] => (none, cursor)
  | char :: _ => (some char, cursor.skip 1)

/-- The text between two byte offsets, which are first moved back into range and order. A bound
inside a character gives the empty text. -/
def substring (cursor : TextCursor) (start stop : Nat) : String :=
  let stop := min stop (Text.byteSize cursor.text)
  String.ofList ((Text.slice? (min start stop) stop cursor.text).getD [])

end TextCursor

end FrontEnd
