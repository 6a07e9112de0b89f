/-
This file parses statements, blocks, declarations and modules.

  statement  = "return" expression | "let" binding | expression
  binding    = identifier [ ":" identifier ] [ "=" expression ]
  block      = "{" statement* "}"
  parameters = "(" [ binding ( "," binding )* [ "," ] ] ")"
  function   = "func" identifier parameters [ ":" identifier ] [ "->" block ]
  module     = ( function | "let" binding )*
-/

import FrontEnd.Parser.Expression

namespace FrontEnd

namespace Parser

variable {σ ρ : Type} [Observer σ] [Receiver ρ]

/-- What follows a token that may be absent. -/
def optional {α : Type} (kind : TokenKind) (item : Parser σ ρ α) : Parser σ ρ (Option α) := do
  match ← eat kind with
  | some _ => return some (← item)
  | none => return none

/-- A type is a name behind a colon. -/
def typeName : Parser σ ρ (Option Identifier) := optional (.symbol .colon) identifier

/-- A value stands behind a sign of assignment. -/
def assigned : Parser σ ρ (Option Expression) := optional (.operator .equals) expression

/-- The variable after its keyword. -/
def binding (keyword : Token) : Parser σ ρ Variable := do
  let name ← identifier
  let type ← typeName
  let value ← assigned
  make .variable ⟨keyword, name, type, value⟩

/-- Closing brackets and symbols start no statement. -/
def startsNoStatement (token : Token) : Bool :=
  match token.kind with
  | .bracket bracket => bracket.isClosing
  | .symbol _ => true
  | _ => false

/-- The placeholder for a token that starts no statement. -/
def unexpected (token : Token) : Parser σ ρ Statement := do
  report (.atToken token .unexpectedToken)
  make Statement.node (.recovery token.toPlaceholder)

/-- A statement begins with its keyword, or it is an expression. -/
def statement : Parser σ ρ Statement := do
  match ← eat (.keyword .returnWord) with
  | some keyword => make Statement.node (.returned keyword (← expression))
  | none =>
      match ← eat (.keyword .letWord) with
      | some keyword => return .variable (← binding keyword)
      | none =>
          match ← eatWhere startsNoStatement with
          | some token => unexpected token
          | none => return .expression (← expression)

/-- The statements of a block stand between curly brackets. -/
def block : Parser σ ρ Block := do
  let opening ← expectBracket .openCurly
  let statements ← items .closeCurly statement
  let close ← expectBracket .closeCurly
  make .block ⟨opening, statements, close⟩

/-- A parameter is bound as a variable is. -/
def parameter : Parser σ ρ Parameter := do
  let name ← identifier
  let type ← typeName
  let default ← assigned
  make .parameter ⟨name, type, default⟩

/-- The parameters stand between parentheses. -/
def parameterList : Parser σ ρ ParameterList := do
  let opening ← expectBracket .openParen
  let parameters ← listItems parameter
  let close ← expectBracket .closeParen
  make .parameterList ⟨opening, parameters, close⟩

/-- The function after its keyword. -/
def function (keyword : Token) : Parser σ ρ FunctionDeclaration := do
  let name ← identifier
  let parameters ← parameterList
  let result ← typeName
  let body ← optional (.symbol .arrow) block
  make .function ⟨keyword, name, parameters, result, body⟩

/-- The declarations stop at the first token that starts none, which is reported. -/
def declarationsWithin : Nat → Parser σ ρ (List Declaration)
  | 0 => return []
  | bound + 1 => do
      if ← hasNext then
        match ← eat (.keyword .funcWord) with
        | some keyword =>
            let first ← function keyword
            let rest ← declarationsWithin bound
            return .function first :: rest
        | none =>
            match ← eat (.keyword .letWord) with
            | some keyword =>
                let first ← binding keyword
                let rest ← declarationsWithin bound
                return .variable first :: rest
            | none =>
                report ⟨(← current).offset, 1, .expectedDeclaration⟩
                return []
      else
        return []

/-- A module holds the declarations up to the first token that begins none. -/
def module : Parser σ ρ Module := do
  let boundary ← current
  let declarations ← declarationsWithin (← remaining)
  make .module ⟨declarations, boundary⟩

/-- A root holds the one module of a file. -/
def root : Parser σ ρ Root := do
  let body ← module
  note (.parsedModule body.declarations.length)
  make .root ⟨[body], (← cursor).marker⟩

end Parser

end FrontEnd
