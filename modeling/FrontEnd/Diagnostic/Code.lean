/-
This file lists the codes of diagnostics with their titles and severities.
-/

namespace FrontEnd

/-- How much a diagnostic matters. -/
inductive Severity where
  | error | warning | hint | tip
  deriving DecidableEq, Repr

def Severity.all : List Severity := [.error, .warning, .hint, .tip]

def Severity.name : Severity → String
  | .error => "error"
  | .warning => "warning"
  | .hint => "hint"
  | .tip => "tip"

/-- A severity in capitals. -/
def Severity.label : Severity → String
  | .error => "ERROR"
  | .warning => "WARNING"
  | .hint => "HINT"
  | .tip => "TIP"

/-- What a diagnostic can be about. -/
inductive Code where
  | endOfFile | expectedIdentifier | invalidOperator | unexpectedToken | expectedComma
  | expectedElse | expectedThen | expectedParentheses | expectedCurly | expectedDeclaration
  deriving DecidableEq, Repr

def Code.all : List Code :=
  [.endOfFile, .expectedIdentifier, .invalidOperator, .unexpectedToken, .expectedComma,
    .expectedElse, .expectedThen, .expectedParentheses, .expectedCurly, .expectedDeclaration]

def Code.name : Code → String
  | .endOfFile => "SYNTAX_END_OF_FILE"
  | .expectedIdentifier => "SYNTAX_EXPECTED_IDENTIFIER"
  | .invalidOperator => "SYNTAX_INVALID_OPERATOR"
  | .unexpectedToken => "SYNTAX_UNEXPECTED_TOKEN"
  | .expectedComma => "SYNTAX_EXPECTED_COMMA"
  | .expectedElse => "SYNTAX_EXPECTED_ELSE"
  | .expectedThen => "SYNTAX_EXPECTED_THEN"
  | .expectedParentheses => "SYNTAX_EXPECTED_PARENTHESES"
  | .expectedCurly => "SYNTAX_EXPECTED_CURLY"
  | .expectedDeclaration => "SYNTAX_EXPECTED_DECLARATION"

def Code.title : Code → String
  | .endOfFile => "unexpected end of file"
  | .expectedIdentifier => "expected an identifier"
  | .invalidOperator => "invalid operator"
  | .unexpectedToken => "unexpected token"
  | .expectedComma => "expected `,`"
  | .expectedElse => "expected `else`"
  | .expectedThen => "expected `then`"
  | .expectedParentheses => "expected parentheses"
  | .expectedCurly => "expected curly braces"
  | .expectedDeclaration => "expected a declaration"

/-- Every code is an error. -/
def Code.severity (_ : Code) : Severity := .error

end FrontEnd
