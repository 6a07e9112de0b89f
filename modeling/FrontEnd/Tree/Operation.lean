/-
This file gives operators a meaning by their place: between two operands, before one or after one.
-/

import FrontEnd.Token.Basic

namespace FrontEnd

/-- The meaning `invalid` stands for an operator that has none in its place. -/
inductive Operation where
  | addition | subtraction | multiplication | division | remainder | assignment | equality
  | inequality | and | or | lessThan | lessThanOrEquals | greaterThan | greaterThanOrEquals
  | shiftLeft | shiftRight | negation | unaryNegative | unaryPositive | preIncrement
  | preDecrement | postIncrement | postDecrement | invalid
  deriving DecidableEq, Repr

namespace Operation

def all : List Operation :=
  [.addition, .subtraction, .multiplication, .division, .remainder, .assignment, .equality,
    .inequality, .and, .or, .lessThan, .lessThanOrEquals, .greaterThan, .greaterThanOrEquals,
    .shiftLeft, .shiftRight, .negation, .unaryNegative, .unaryPositive, .preIncrement,
    .preDecrement, .postIncrement, .postDecrement, .invalid]

def name : Operation → String
  | .addition => "Addition"
  | .subtraction => "Subtraction"
  | .multiplication => "Multiplication"
  | .division => "Division"
  | .remainder => "Remainder"
  | .assignment => "Assignment"
  | .equality => "Equality"
  | .inequality => "Inequality"
  | .and => "And"
  | .or => "Or"
  | .lessThan => "LessThan"
  | .lessThanOrEquals => "LessThanOrEquals"
  | .greaterThan => "GreaterThan"
  | .greaterThanOrEquals => "GreaterThanOrEquals"
  | .shiftLeft => "BitwiseShiftLeft"
  | .shiftRight => "BitwiseShiftRight"
  | .negation => "Negation"
  | .unaryNegative => "UnaryNegative"
  | .unaryPositive => "UnaryPositive"
  | .preIncrement => "PreIncrement"
  | .preDecrement => "PreDecrement"
  | .postIncrement => "PostIncrement"
  | .postDecrement => "PostDecrement"
  | .invalid => "InvalidOrError"

def spelling : Operation → String
  | .addition | .unaryPositive => "+"
  | .subtraction | .unaryNegative => "-"
  | .multiplication => "*"
  | .division => "/"
  | .remainder => "%"
  | .assignment => "="
  | .equality => "=="
  | .inequality => "!="
  | .and => "&&"
  | .or => "||"
  | .lessThan => "<"
  | .lessThanOrEquals => "<="
  | .greaterThan => ">"
  | .greaterThanOrEquals => ">="
  | .shiftLeft => "<<"
  | .shiftRight => ">>"
  | .negation => "!"
  | .preIncrement | .postIncrement => "++"
  | .preDecrement | .postDecrement => "--"
  | .invalid => Token.placeholderText

end Operation

/-- The place of an operator relative to its operands. -/
inductive Fixity where
  | between | before | after
  deriving DecidableEq, Repr

/-- The operators `&` and `|` are reserved and mean nothing in any place. -/
def Operator.operation? : Fixity → Operator → Option Operation
  | .between, .plus => some .addition
  | .between, .minus => some .subtraction
  | .between, .star => some .multiplication
  | .between, .slash => some .division
  | .between, .percent => some .remainder
  | .between, .equals => some .assignment
  | .between, .equalsEquals => some .equality
  | .between, .bangEquals => some .inequality
  | .between, .ampAmp => some .and
  | .between, .pipePipe => some .or
  | .between, .less => some .lessThan
  | .between, .lessEquals => some .lessThanOrEquals
  | .between, .greater => some .greaterThan
  | .between, .greaterEquals => some .greaterThanOrEquals
  | .between, .lessLess => some .shiftLeft
  | .between, .greaterGreater => some .shiftRight
  | .before, .bang => some .negation
  | .before, .minus => some .unaryNegative
  | .before, .plus => some .unaryPositive
  | .before, .minusMinus => some .preDecrement
  | .before, .plusPlus => some .preIncrement
  | .after, .minusMinus => some .postDecrement
  | .after, .plusPlus => some .postIncrement
  | _, _ => none

/-- The meaning of a token that stands in an operator's place. -/
def Token.operation? (token : Token) (fixity : Fixity) : Option Operation :=
  match token.kind with
  | .operator operator => operator.operation? fixity
  | _ => none

end FrontEnd
