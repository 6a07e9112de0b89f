/-
This file holds tokens: a kind, a spelling and a place in the source.
-/

import FrontEnd.Text.Bytes
import FrontEnd.Text.Quoted
import FrontEnd.Token.Kind

namespace FrontEnd

/-- A token with the error flag stands for text that was never written. -/
structure Token where
  offset : Nat
  kind : TokenKind
  lexeme : String
  error : Bool
  deriving DecidableEq, Repr

namespace Token

/-- The spelling of a placeholder for input that is of no use. -/
def placeholderText : String := "ಠ_ಠ"

/-- An end marker has no lexeme. -/
def eof (offset : Nat) : Token := ⟨offset, .eof, "", false⟩

/-- A placeholder of the kind that was expected at an offset. -/
def placeholder (offset : Nat) (kind : TokenKind) (lexeme : String) : Token :=
  ⟨offset, kind, lexeme, true⟩

/-- The placeholder that replaces a token. -/
def toPlaceholder (token : Token) : Token :=
  { token with lexeme := placeholderText, error := true }

/-- The length of a token is that of its lexeme in bytes. -/
def length (token : Token) : Nat := Text.byteSize token.lexeme.toList

/-- A placeholder ends where it starts. -/
def stop (token : Token) : Nat :=
  if token.error then token.offset else token.offset + token.length

/-- An end marker is told by its kind, whatever its lexeme. -/
def isEof (token : Token) : Bool := token.kind = .eof

def display (token : Token) : String :=
  s!"Token({token.kind.display}, " ++ Text.quote token.lexeme ++ s!", {token.offset})"

end Token

end FrontEnd
