/-
This file parses expressions, from assignment, which binds loosest, to literals.

  assignment  = conditional ( "=" conditional )*
  conditional = "if" expression "then" expression "else" expression | disjunction
  disjunction = conjunction ( "||" conjunction )*
  conjunction = equality ( "&&" equality )*
  equality    = comparison ( ( "==" | "!=" ) comparison )*
  comparison  = shift ( ( "<" | "<=" | ">" | ">=" ) shift )*
  shift       = additive ( ( "<<" | ">>" ) additive )*
  additive    = prefixed ( ( "+" | "-" | "*" | "/" | "%" ) prefixed )*
  prefixed    = ( "-" | "+" | "!" | "--" | "++" ) prefixed | postfixed
  postfixed   = call ( "--" | "++" )?
  call        = primary ( "(" arguments? ")" | "." identifier )*
  primary     = "(" expression ")" | number | boolean | string | identifier
-/

import FrontEnd.Binary64.Reader
import FrontEnd.Parser.Basic

namespace FrontEnd

namespace Parser

variable {σ ρ : Type} [Observer σ] [Receiver ρ]

/-- Makes the node of an expression. -/
def makeExpression (value : Expression) : Parser σ ρ Expression := make .expression value

/-- Anything else than an identifier is taken, reported and replaced by a placeholder. -/
def identifier : Parser σ ρ Identifier := do
  match ← eat .identifier with
  | some token => make Identifier.node ⟨token⟩
  | none =>
      let token ← advance
      report (.atToken token .expectedIdentifier)
      make Identifier.node ⟨token.toPlaceholder⟩

/-- The operators of one level bind to the left, and each takes at least one token. -/
def binaryWithin (operators : List Operator) (operand : Parser σ ρ Expression) :
    Nat → Expression → Parser σ ρ Expression
  | 0, left => return left
  | bound + 1, left => do
      match ← eatOneOf operators with
      | none => return left
      | some token =>
          let meaning ← operation .between token
          let right ← operand
          let node ← makeExpression (.binary left meaning token right)
          binaryWithin operators operand bound node

/-- The operators of a chain bind to the left. -/
def binary (operators : List Operator) (operand : Parser σ ρ Expression) :
    Parser σ ρ Expression := do
  let left ← operand
  binaryWithin operators operand (← remaining) left

/-- The levels of binary operators between a conditional and a prefix, loosest first. -/
def levels : List (List Operator) :=
  [[.pipePipe], [.ampAmp], [.equalsEquals, .bangEquals],
    [.less, .lessEquals, .greater, .greaterEquals], [.lessLess, .greaterGreater],
    [.plus, .minus, .star, .slash, .percent]]

/-- The operands of a level are what the tighter levels make. -/
def tower (operand : Parser σ ρ Expression) : List (List Operator) → Parser σ ρ Expression
  | [] => operand
  | operators :: tighter => binary operators (tower operand tighter)

/-- The operators that can stand before an operand. -/
def prefixSigns : List Operator := [.minus, .plus, .bang, .minusMinus, .plusPlus]

/-- Signs before an operand nest. -/
def prefixedWithin (operand : Parser σ ρ Expression) : Nat → Parser σ ρ Expression
  | 0 => operand
  | bound + 1 => do
      match ← eatOneOf prefixSigns with
      | none => operand
      | some token =>
          let meaning ← operation .before token
          let inner ← prefixedWithin operand bound
          makeExpression (.prefixed meaning token inner)

/-- No more signs can follow than tokens remain. -/
def prefixed (operand : Parser σ ρ Expression) : Parser σ ρ Expression := do
  prefixedWithin operand (← remaining)

/-- The operators that can stand behind an operand. -/
def postfixSigns : List Operator := [.minusMinus, .plusPlus]

/-- A kind that can begin a primary expression, or a conditional. -/
def beginsOperand : TokenKind → Bool
  | .identifier | .literal _ | .keyword .ifWord | .bracket .openParen => true
  | _ => false

/-- An operator before something that can begin an operand belongs to what follows. -/
def closesOperand (cursor : TokenCursor) : Bool :=
  cursor.hasNext &&
    (postfixSigns.any fun operator => cursor.current.kind = .operator operator) &&
    !beginsOperand cursor.following.kind

/-- At most one sign behind an operand belongs to it. -/
def postfixed (operand : Parser σ ρ Expression) : Parser σ ρ Expression := do
  let value ← operand
  if closesOperand (← cursor) then
    let token ← advance
    let meaning ← operation .after token
    makeExpression (.postfixed value meaning token)
  else
    return value

/-- Calls and properties follow one another, and each takes at least one token. -/
def callWithin (expression : Parser σ ρ Expression) : Nat → Expression → Parser σ ρ Expression
  | 0, receiver => return receiver
  | bound + 1, receiver => do
      match ← eat (.bracket .openParen) with
      | some _ =>
          let arguments ← listItems expression
          let close ← expectBracket .closeParen
          let node ← makeExpression (.call receiver arguments close)
          callWithin expression bound node
      | none =>
          match ← eat (.symbol .dot) with
          | some _ =>
              let name ← identifier
              let node ← makeExpression (.property receiver name)
              callWithin expression bound node
          | none => return receiver

/-- The characters between the delimiters of a string. -/
def stringContents (lexeme : String) : String :=
  let chars := lexeme.toList
  String.ofList ((Text.slice? 1 (Text.byteSize chars - 1) chars).getD [])

/-- The value of a number token, reported when its text is no number. -/
def numberValue (token : Token) : Parser σ ρ Binary64 :=
  match Binary64.read? token.lexeme with
  | some value => return value
  | none => do
      report (.atToken token .unexpectedToken)
      return .nan

/-- A literal holds the value of its token, and what is no literal is taken for a name. -/
def literal : Parser σ ρ Expression := do
  match ← eat (.literal .number) with
  | some token => makeExpression (.number token (← numberValue token))
  | none =>
      match ← eat (.literal .boolean) with
      | some token => makeExpression (.boolean token (token.lexeme = "true"))
      | none =>
          match ← eat (.literal .string) with
          | some token => makeExpression (.string token (stringContents token.lexeme))
          | none => return .identifier (← identifier)

/-- An operand is a group between parentheses, a literal or a name. -/
def primary (expression : Parser σ ρ Expression) : Parser σ ρ Expression := do
  match ← eat (.bracket .openParen) with
  | some opening =>
      let content ← expression
      let close ← expectBracket .closeParen
      makeExpression (.group opening content close)
  | none => literal

/-- Calls and properties follow their receiver in a chain. -/
def call (expression : Parser σ ρ Expression) : Parser σ ρ Expression := do
  let receiver ← primary expression
  callWithin expression (← remaining) receiver

def disjunction (expression : Parser σ ρ Expression) : Parser σ ρ Expression :=
  tower (prefixed (postfixed (call expression))) levels

/-- A missing keyword is reported, and parsing goes on as if it were there. -/
def passKeyword (keyword : Keyword) (code : Code) : Parser σ ρ Unit := do
  match ← eat (.keyword keyword) with
  | some _ => return ()
  | none => report (.atToken (← current) code)

/-- A conditional needs all its three parts. -/
def conditional (expression : Parser σ ρ Expression) : Parser σ ρ Expression := do
  match ← eat (.keyword .ifWord) with
  | none => disjunction expression
  | some keyword =>
      let condition ← expression
      passKeyword .thenWord .expectedThen
      let consequent ← expression
      passKeyword .elseWord .expectedElse
      let alternative ← expression
      makeExpression (.conditional keyword condition consequent alternative)

/-- Assignments bind weaker than everything else. -/
def assignment (expression : Parser σ ρ Expression) : Parser σ ρ Expression :=
  binary [.equals] (conditional expression)

/-- An expression inside another one follows a token of the outer one, so the tokens that remain
bound the depth. Without tokens an expression fails where its first name would stand. -/
def expressionWithin : Nat → Parser σ ρ Expression
  | 0 => return .identifier (← identifier)
  | bound + 1 => assignment (expressionWithin bound)

/-- Expressions nest no deeper than there are tokens. -/
def expression : Parser σ ρ Expression := do
  expressionWithin (← remaining)

end Parser

end FrontEnd
