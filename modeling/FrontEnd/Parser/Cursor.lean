/-
This file moves a cursor over tokens. The end marker is kept apart, so there is always a current
token.
-/

import FrontEnd.Token.Basic

namespace FrontEnd

/-- The tokens before the cursor stand last one first, and the marker comes after the rest. -/
structure TokenCursor where
  passed : List Token
  rest : List Token
  marker : Token
  deriving DecidableEq, Repr

namespace TokenCursor

/-- Tokens without an end marker get one where the last of them ends. -/
def ofTokens (tokens : List Token) : TokenCursor :=
  match tokens.getLast? with
  | none => ⟨[], [], Token.eof 0⟩
  | some last =>
      if last.isEof then ⟨[], tokens.dropLast, last⟩
      else ⟨[], tokens, Token.eof last.stop⟩

/-- All tokens up to the marker, in order. -/
def tokens (cursor : TokenCursor) : List Token :=
  cursor.passed.reverse ++ cursor.rest ++ [cursor.marker]

/-- The place of the current token among all of them. -/
def position (cursor : TokenCursor) : Nat := cursor.passed.length

/-- The number of tokens from the cursor to the marker bounds every loop over them. -/
def remaining (cursor : TokenCursor) : Nat := cursor.rest.length

/-- The current token is the marker when no others are left. -/
def current (cursor : TokenCursor) : Token := cursor.rest.headD cursor.marker

/-- The token after the current one. -/
def following (cursor : TokenCursor) : Token := cursor.rest.tail.headD cursor.marker

/-- The current token with the cursor behind it. The cursor stops at any end marker. -/
def step? (cursor : TokenCursor) : Option (Token × TokenCursor) :=
  match cursor.rest with
  | [] => none
  | token :: rest =>
      if token.isEof then none
      else some (token, { cursor with passed := token :: cursor.passed, rest := rest })

/-- A step moves one token across the cursor and changes nothing else. -/
theorem step?_sound {cursor next : TokenCursor} {token : Token}
    (stepped : cursor.step? = some (token, next)) :
    next.tokens = cursor.tokens ∧ next.position = cursor.position + 1 ∧
      next.remaining + 1 = cursor.remaining ∧ cursor.current = token ∧ !token.isEof := by
  obtain ⟨passed, rest, marker⟩ := cursor
  cases rest with
  | nil => simp [step?] at stepped
  | cons first rest =>
      by_cases ends : first.isEof = true
      · simp [step?, ends] at stepped
      · have same : first = token ∧ (⟨first :: passed, rest, marker⟩ : TokenCursor) = next := by
          simpa [step?, ends] using stepped
        obtain ⟨rfl, rfl⟩ := same
        simp [tokens, position, remaining, current, ends]

/-- Whether a token stands before the end marker. -/
def hasNext (cursor : TokenCursor) : Bool := cursor.step?.isSome

/-- The token some places before or after the current one. -/
def peekAt? (cursor : TokenCursor) (offset : Int) : Option Token :=
  match (cursor.position : Int) + offset with
  | .ofNat index => cursor.tokens[index]?
  | .negSucc _ => none

end TokenCursor

end FrontEnd
