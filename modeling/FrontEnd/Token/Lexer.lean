/-
This file splits a text into tokens. At each place it takes the longest token that fits, and a
number with a fraction must not be followed by another point.
-/

import FrontEnd.TextCursor
import FrontEnd.Token.Basic

namespace FrontEnd

/-- A text without tokens: a character that starts none, or a string without its closing
quote. -/
inductive LexicalError where
  | unexpected (char : Char) (offset : Nat)
  | unterminated (offset : Nat)
  deriving DecidableEq, Repr

/-- An error stands where the lexer stopped. -/
def LexicalError.offset : LexicalError → Nat
  | .unexpected _ offset => offset
  | .unterminated offset => offset

def LexicalError.message : LexicalError → String
  | .unexpected char offset => s!"Unexpected token: `{char}` at {offset}."
  | .unterminated offset => s!"Unterminated string literal starting at {offset}."

namespace Lexer

/-- Blanks stand between tokens and belong to none. -/
def isBlank (char : Char) : Bool :=
  char = ' ' || char = '\t' || char = '\n' || char = '\r'

/-- Letters and underscores begin words. -/
def startsWord (char : Char) : Bool := char.isAlpha || char = '_'

/-- Digits go on with a word that has begun. -/
def continuesWord (char : Char) : Bool := startsWord char || char.isDigit

/-- A quote of one sort may stand in a string between quotes of the other. -/
def isQuote (char : Char) : Bool := char = '\'' || char = '"'

/-- The truth values are literals, and a keyword is not an identifier. -/
def wordKind (word : String) : TokenKind :=
  if word = "true" ∨ word = "false" then .literal .boolean
  else match Keyword.ofWord? word with
    | some keyword => .keyword keyword
    | none => .identifier

/-- The kind of the fixed spelling that starts with two characters. -/
def pairKind? : Char → Char → Option TokenKind
  | '+', '+' => some (.operator .plusPlus)
  | '-', '>' => some (.symbol .arrow)
  | '-', '-' => some (.operator .minusMinus)
  | '=', '=' => some (.operator .equalsEquals)
  | '!', '=' => some (.operator .bangEquals)
  | '&', '&' => some (.operator .ampAmp)
  | '|', '|' => some (.operator .pipePipe)
  | '<', '=' => some (.operator .lessEquals)
  | '<', '<' => some (.operator .lessLess)
  | '>', '=' => some (.operator .greaterEquals)
  | '>', '>' => some (.operator .greaterGreater)
  | _, _ => none

/-- The kind of the fixed spelling that is a single character. -/
def singleKind? : Char → Option TokenKind
  | ':' => some (.symbol .colon)
  | ',' => some (.symbol .comma)
  | '.' => some (.symbol .dot)
  | '(' => some (.bracket .openParen)
  | ')' => some (.bracket .closeParen)
  | '\x7b' => some (.bracket .openCurly)
  | '\x7d' => some (.bracket .closeCurly)
  | '*' => some (.operator .star)
  | '/' => some (.operator .slash)
  | '%' => some (.operator .percent)
  | '+' => some (.operator .plus)
  | '-' => some (.operator .minus)
  | '=' => some (.operator .equals)
  | '!' => some (.operator .bang)
  | '&' => some (.operator .amp)
  | '|' => some (.operator .pipe)
  | '<' => some (.operator .less)
  | '>' => some (.operator .greater)
  | _ => none

/-- What stands at the front of a text. An unexpected character is some bytes ahead. -/
inductive Front where
  | blank
  | token (kind : TokenKind) (spelling rest : List Char)
  | unexpected (char : Char) (distance : Nat)
  | unterminated
  deriving DecidableEq, Repr

/-- A fixed spelling of two characters is preferred to one of a single character. -/
def fixedFront? (first : Char) (rest : List Char) : Option Front :=
  let single := (singleKind? first).map fun kind => Front.token kind [first] rest
  match rest with
  | [] => single
  | second :: after =>
      match pairKind? first second with
      | some kind => some (.token kind [first, second] after)
      | none => single

/-- A string runs to the next quote of its own sort. -/
def stringFront (quote : Char) (rest : List Char) : Front :=
  match rest.dropWhile (· != quote) with
  | [] => .unterminated
  | closing :: after =>
      .token (.literal .string) (quote :: rest.takeWhile (· != quote) ++ [closing]) after

/-- A point belongs to a number only when a digit follows it. -/
def numberFront (first : Char) (rest : List Char) : Front :=
  let whole := first :: rest.takeWhile Char.isDigit
  match rest.dropWhile Char.isDigit with
  | '.' :: digit :: after =>
      if digit.isDigit then
        let spelling := whole ++ '.' :: digit :: after.takeWhile Char.isDigit
        match after.dropWhile Char.isDigit with
        | '.' :: _ => .unexpected '.' (Text.byteSize spelling)
        | remaining => .token (.literal .number) spelling remaining
      else
        .token (.literal .number) whole ('.' :: digit :: after)
  | remaining => .token (.literal .number) whole remaining

/-- A word goes on as far as its characters do. -/
def wordFront (first : Char) (rest : List Char) : Front :=
  let spelling := first :: rest.takeWhile continuesWord
  .token (wordKind (String.ofList spelling)) spelling (rest.dropWhile continuesWord)

/-- The first character decides what can stand at the front. -/
def front (first : Char) (rest : List Char) : Front :=
  match fixedFront? first rest with
  | some found => found
  | none =>
      if isQuote first then stringFront first rest
      else if isBlank first then .blank
      else if first.isDigit then numberFront first rest
      else if startsWord first then wordFront first rest
      else .unexpected first 0

/-- A fixed spelling and what follows it are the whole text. -/
theorem fixedFront?_sound {first : Char} {rest spelling after : List Char} {kind : TokenKind}
    (found : fixedFront? first rest = some (.token kind spelling after)) :
    first :: rest = spelling ++ after := by
  unfold fixedFront? at found
  cases rest with
  | nil =>
      obtain ⟨kind, _, same⟩ := Option.map_eq_some_iff.1 found
      injection same with _ spelled left
      simp [← spelled, ← left]
  | cons second rest =>
      simp only at found
      split at found
      · injection found with same
        injection same with _ spelled left
        simp [← spelled, ← left]
      · obtain ⟨kind, _, same⟩ := Option.map_eq_some_iff.1 found
        injection same with _ spelled left
        simp [← spelled, ← left]

/-- A string and what follows it are the whole text. -/
theorem stringFront_sound {quote : Char} {rest spelling after : List Char} {kind : TokenKind}
    (found : stringFront quote rest = .token kind spelling after) :
    quote :: rest = spelling ++ after := by
  have whole := rest.takeWhile_append_dropWhile (p := (· != quote))
  unfold stringFront at found
  split at found
  · simp at found
  · rename_i closing tail dropped
    injection found with _ spelled left
    rw [dropped] at whole
    rw [← spelled, ← left]
    simp [whole]

/-- A number and what follows it are the whole text. -/
theorem numberFront_sound {first : Char} {rest spelling after : List Char} {kind : TokenKind}
    (found : numberFront first rest = .token kind spelling after) :
    first :: rest = spelling ++ after := by
  have whole := rest.takeWhile_append_dropWhile (p := Char.isDigit)
  unfold numberFront at found
  simp only at found
  split at found
  · rename_i digit tail dropped
    rw [dropped] at whole
    split at found
    · split at found
      · simp at found
      · injection found with _ spelled left
        rw [← spelled, ← left]
        simp [whole]
    · injection found with _ spelled left
      rw [← spelled, ← left]
      simp [whole]
  · injection found with _ spelled left
    rw [← spelled, ← left]
    simp [whole]

/-- A token at the front of a text is a beginning of it. -/
theorem front_sound {first : Char} {rest spelling after : List Char} {kind : TokenKind}
    (found : front first rest = .token kind spelling after) :
    first :: rest = spelling ++ after := by
  unfold front at found
  split at found
  · rename_i fixed fits
    rw [found] at fits
    exact fixedFront?_sound fits
  · split at found
    · exact stringFront_sound found
    · split at found
      · simp at found
      · split at found
        · exact numberFront_sound found
        · split at found
          · unfold wordFront at found
            injection found with _ spelled left
            rw [← spelled, ← left]
            simp
          · simp at found

/-- Each step takes at least one character, so a bound of the text's length is never reached
early. -/
def tokensWithin : Nat → Nat → List Char → Except LexicalError (List Token)
  | 0, offset, _ => .ok [Token.eof offset]
  | _ + 1, offset, [] => .ok [Token.eof offset]
  | bound + 1, offset, first :: rest =>
      match front first rest with
      | .blank => tokensWithin bound (offset + first.utf8Size) rest
      | .token kind spelling after => do
          let following ← tokensWithin bound (offset + Text.byteSize spelling) after
          return ⟨offset, kind, String.ofList spelling, false⟩ :: following
      | .unexpected char distance => .error (.unexpected char (offset + distance))
      | .unterminated => .error (.unterminated offset)

/-- The tokens of a text whose first character stands at an offset. -/
def tokensFrom (offset : Nat) (chars : List Char) : Except LexicalError (List Token) :=
  tokensWithin chars.length offset chars

/-- The tokens ahead of a cursor. -/
def tokensAhead (cursor : TextCursor) : Except LexicalError (List Token) :=
  tokensFrom cursor.position cursor.rest

end Lexer

/-- The tokens of a text, with an end marker after them. -/
def tokenize (text : String) : Except LexicalError (List Token) :=
  Lexer.tokensFrom 0 text.toList

end FrontEnd
