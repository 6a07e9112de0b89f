/-
This file writes a text between double quotes, with escapes for what a reader would not see.
-/

import FrontEnd.Text.Visible

namespace FrontEnd.Text

/-- The lower-case hexadecimal digits of a code, without padding. -/
def hexDigits (code : Nat) : List Char := Nat.toDigits 16 code

/-- Six characters have a short escape, and a hidden one is written by its code. -/
def escape (char : Char) : List Char :=
  match char with
  | '\t' => ['\\', 't']
  | '\r' => ['\\', 'r']
  | '\n' => ['\\', 'n']
  | '\x00' => ['\\', '0']
  | '"' => ['\\', '"']
  | '\\' => ['\\', '\\']
  | _ =>
      if isVisible char then [char]
      else ['\\', 'u', '\x7b'] ++ hexDigits char.toNat ++ ['\x7d']

/-- Every character is escaped on its own. -/
def escapeAll (chars : List Char) : List Char := chars.flatMap escape

/-- The quoted form of a text. -/
def quote (text : String) : String :=
  String.ofList ('"' :: escapeAll text.toList ++ ['"'])

end FrontEnd.Text
