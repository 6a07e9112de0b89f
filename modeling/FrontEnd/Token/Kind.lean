/-
This file lists the kinds of tokens with their names and fixed spellings.
-/

namespace FrontEnd

/-- The signs between, before and behind operands, and those of assignments. -/
inductive Operator where
  | plus | plusPlus | minus | minusMinus | star | slash | percent | bang | bangEquals | equals
  | equalsEquals | amp | ampAmp | pipe | pipePipe | less | lessEquals | lessLess | greater
  | greaterEquals | greaterGreater
  deriving DecidableEq, Repr

def Operator.all : List Operator :=
  [.plus, .plusPlus, .minus, .minusMinus, .star, .slash, .percent, .bang, .bangEquals, .equals,
    .equalsEquals, .amp, .ampAmp, .pipe, .pipePipe, .less, .lessEquals, .lessLess, .greater,
    .greaterEquals, .greaterGreater]

def Operator.name : Operator → String
  | .plus => "Plus"
  | .plusPlus => "PlusPlus"
  | .minus => "Minus"
  | .minusMinus => "MinusMinus"
  | .star => "Star"
  | .slash => "Slash"
  | .percent => "Percent"
  | .bang => "Bang"
  | .bangEquals => "BangEquals"
  | .equals => "Equals"
  | .equalsEquals => "EqualsEquals"
  | .amp => "Amp"
  | .ampAmp => "AmpAmp"
  | .pipe => "Pipe"
  | .pipePipe => "PipePipe"
  | .less => "Less"
  | .lessEquals => "LessEquals"
  | .lessLess => "LessLess"
  | .greater => "Greater"
  | .greaterEquals => "GreaterEquals"
  | .greaterGreater => "GreaterGreater"

/-- No two operators have the same spelling. -/
def Operator.spelling : Operator → String
  | .plus => "+"
  | .plusPlus => "++"
  | .minus => "-"
  | .minusMinus => "--"
  | .star => "*"
  | .slash => "/"
  | .percent => "%"
  | .bang => "!"
  | .bangEquals => "!="
  | .equals => "="
  | .equalsEquals => "=="
  | .amp => "&"
  | .ampAmp => "&&"
  | .pipe => "|"
  | .pipePipe => "||"
  | .less => "<"
  | .lessEquals => "<="
  | .lessLess => "<<"
  | .greater => ">"
  | .greaterEquals => ">="
  | .greaterGreater => ">>"

/-- The reserved words but for the truth values. -/
inductive Keyword where
  | funcWord | letWord | ifWord | thenWord | elseWord | returnWord
  deriving DecidableEq, Repr

def Keyword.all : List Keyword :=
  [.funcWord, .letWord, .ifWord, .thenWord, .elseWord, .returnWord]

def Keyword.name : Keyword → String
  | .funcWord => "Func"
  | .letWord => "Let"
  | .ifWord => "If"
  | .thenWord => "Then"
  | .elseWord => "Else"
  | .returnWord => "Return"

def Keyword.spelling : Keyword → String
  | .funcWord => "func"
  | .letWord => "let"
  | .ifWord => "if"
  | .thenWord => "then"
  | .elseWord => "else"
  | .returnWord => "return"

/-- The keyword that a word spells. -/
def Keyword.ofWord? (word : String) : Option Keyword :=
  Keyword.all.find? (·.spelling = word)

/-- A literal is a truth value, a number or a string. -/
inductive LiteralKind where
  | boolean | number | string
  deriving DecidableEq, Repr

def LiteralKind.all : List LiteralKind := [.boolean, .number, .string]

def LiteralKind.name : LiteralKind → String
  | .boolean => "Boolean"
  | .number => "Number"
  | .string => "String"

/-- Parentheses and curly brackets, of which each has two sides. -/
inductive Bracket where
  | openParen | closeParen | openCurly | closeCurly
  deriving DecidableEq, Repr

def Bracket.all : List Bracket := [.openParen, .closeParen, .openCurly, .closeCurly]

def Bracket.name : Bracket → String
  | .openParen => "OpenParen"
  | .closeParen => "CloseParen"
  | .openCurly => "OpenCurly"
  | .closeCurly => "CloseCurly"

def Bracket.spelling : Bracket → String
  | .openParen => "("
  | .closeParen => ")"
  | .openCurly => "\x7b"
  | .closeCurly => "\x7d"

def Bracket.isClosing : Bracket → Bool
  | .closeParen | .closeCurly => true
  | .openParen | .openCurly => false

/-- The marks that are neither operators nor brackets. -/
inductive Symbol where
  | colon | dot | comma | arrow
  deriving DecidableEq, Repr

def Symbol.all : List Symbol := [.colon, .dot, .comma, .arrow]

def Symbol.name : Symbol → String
  | .colon => "Colon"
  | .dot => "Dot"
  | .comma => "Comma"
  | .arrow => "Arrow"

def Symbol.spelling : Symbol → String
  | .colon => ":"
  | .dot => "."
  | .comma => ","
  | .arrow => "->"

/-- The kind `eof` marks the end of a token sequence. -/
inductive TokenKind where
  | eof
  | identifier
  | keyword (keyword : Keyword)
  | literal (kind : LiteralKind)
  | operator (operator : Operator)
  | bracket (bracket : Bracket)
  | symbol (symbol : Symbol)
  deriving DecidableEq, Repr

namespace TokenKind

/-- The family that a kind belongs to. -/
def family : TokenKind → String
  | .eof => "eof"
  | .identifier => "identifier"
  | .keyword _ => "keyword"
  | .literal _ => "literal"
  | .operator _ => "operator"
  | .bracket _ => "pair"
  | .symbol _ => "symbol"

/-- The name of a kind within its family. -/
def member? : TokenKind → Option String
  | .eof | .identifier => none
  | .keyword member => some member.name
  | .literal member => some member.name
  | .operator member => some member.name
  | .bracket member => some member.name
  | .symbol member => some member.name

/-- Kinds with a fixed spelling show it. -/
def display : TokenKind → String
  | .eof => "<EOF>"
  | .identifier => "IDENTIFIER"
  | .keyword member => s!"KEYWORD({member.spelling})"
  | .literal member => s!"LITERAL({member.name})"
  | .operator member => s!"OPERATOR({member.spelling})"
  | .bracket member => s!"PAIR({member.spelling})"
  | .symbol member => s!"SYMBOL({member.spelling})"

/-- Every kind, in the order of the lists above. -/
def all : List TokenKind :=
  [.eof, .identifier] ++ Keyword.all.map keyword ++ LiteralKind.all.map literal ++
    Operator.all.map operator ++ Bracket.all.map bracket ++ Symbol.all.map symbol

end TokenKind

end FrontEnd
