/-
This file holds the grammar as derivations of token sequences.

  expression 0  = expression 1 ( "=" expression 1 )*
  expression 1  = "if" expression 0 "then" expression 0 "else" expression 0 | expression 2
  expression 2  = expression 3 ( "||" expression 3 )*
  expression 3  = expression 4 ( "&&" expression 4 )*
  expression 4  = expression 5 ( ( "==" | "!=" ) expression 5 )*
  expression 5  = expression 6 ( ( "<" | "<=" | ">" | ">=" ) expression 6 )*
  expression 6  = expression 7 ( ( "<<" | ">>" ) expression 7 )*
  expression 7  = expression 8 ( ( "+" | "-" | "*" | "/" | "%" ) expression 8 )*
  expression 8  = ( "-" | "+" | "!" | "--" | "++" ) expression 8 | expression 9
  expression 9  = expression 10 ( "--" | "++" )?
  expression 10 = expression 11 ( "(" list expression 0 ")" | "." identifier )*
  expression 11 = "(" expression 0 ")" | number | boolean | string | identifier
  typeName      = ":" identifier
  initializer   = "=" expression 0
  binding       = identifier typeName? initializer?
  variable      = "let" binding
  statement     = "return" expression 0 | variable | expression 0
  body          = "->" "{" statement* "}"
  function      = "func" identifier "(" list binding ")" typeName? body?
  declaration   = function | variable
  module        = declaration*
  list item     = ( item ( "," item )* ","? )?
-/

import FrontEnd.Proofs.Tree.Shape
import Mathlib.Data.List.Chain

namespace FrontEnd

namespace Grammar

/-- The operators between operands, by the rank of their rule. -/
def binarySigns : Nat → List Operator
  | 0 => [.equals]
  | 2 => [.pipePipe]
  | 3 => [.ampAmp]
  | 4 => [.equalsEquals, .bangEquals]
  | 5 => [.less, .lessEquals, .greater, .greaterEquals]
  | 6 => [.lessLess, .greaterGreater]
  | 7 => [.plus, .minus, .star, .slash, .percent]
  | _ => []

def prefixSigns : List Operator := [.minus, .plus, .bang, .minusMinus, .plusPlus]

def postfixSigns : List Operator := [.minusMinus, .plusPlus]

inductive Nonterminal where
  | expression (rank : Nat)
  | typeName
  | initializer
  | binding
  | variable
  | statement
  | body
  | declaration
  | optional (part : Nonterminal)
  | many (part : Nonterminal)
  | list (item : Nonterminal)
  deriving DecidableEq, Repr

def Nonterminal.module : Nonterminal := .many .declaration

/-- The grammar derives some tokens from a nonterminal. -/
inductive Derives : Nonterminal → List Token → Prop
  | tighter {rank : Nat} {tokens : List Token} (derives : Derives (.expression (rank + 1)) tokens) :
      Derives (.expression rank) tokens
  | binary {rank : Nat} {left right : List Token} {token : Token} {sign : Operator}
      (kind : token.kind = .operator sign) (member : sign ∈ binarySigns rank)
      (leftDerives : Derives (.expression rank) left)
      (rightDerives : Derives (.expression (rank + 1)) right) :
      Derives (.expression rank) (left ++ token :: right)
  | conditional {keyword thenWord elseWord : Token} {condition consequent alternative : List Token}
      (keywordKind : keyword.kind = .keyword .ifWord)
      (conditionDerives : Derives (.expression 0) condition)
      (thenKind : thenWord.kind = .keyword .thenWord)
      (consequentDerives : Derives (.expression 0) consequent)
      (elseKind : elseWord.kind = .keyword .elseWord)
      (alternativeDerives : Derives (.expression 0) alternative) :
      Derives (.expression 1)
        (keyword :: (condition ++ thenWord :: (consequent ++ elseWord :: alternative)))
  | prefixed {token : Token} {sign : Operator} {operand : List Token}
      (kind : token.kind = .operator sign) (member : sign ∈ prefixSigns)
      (operandDerives : Derives (.expression 8) operand) :
      Derives (.expression 8) (token :: operand)
  | postfixed {operand : List Token} {token : Token} {sign : Operator}
      (operandDerives : Derives (.expression 10) operand) (kind : token.kind = .operator sign)
      (member : sign ∈ postfixSigns) : Derives (.expression 9) (operand ++ [token])
  | call {receiver arguments : List Token} {opening close : Token}
      (receiverDerives : Derives (.expression 10) receiver)
      (openingKind : opening.kind = .bracket .openParen)
      (argumentsDerive : Derives (.list (.expression 0)) arguments)
      (closeKind : close.kind = .bracket .closeParen) :
      Derives (.expression 10) (receiver ++ opening :: (arguments ++ [close]))
  | property {receiver : List Token} {dot name : Token}
      (receiverDerives : Derives (.expression 10) receiver) (dotKind : dot.kind = .symbol .dot)
      (nameKind : name.kind = .identifier) : Derives (.expression 10) (receiver ++ [dot, name])
  | group {opening close : Token} {content : List Token}
      (openingKind : opening.kind = .bracket .openParen)
      (contentDerives : Derives (.expression 0) content)
      (closeKind : close.kind = .bracket .closeParen) :
      Derives (.expression 11) (opening :: (content ++ [close]))
  | literal {token : Token} {sort : LiteralKind} (kind : token.kind = .literal sort) :
      Derives (.expression 11) [token]
  | identifier {token : Token} (kind : token.kind = .identifier) :
      Derives (.expression 11) [token]
  | typeName {colon name : Token} (colonKind : colon.kind = .symbol .colon)
      (nameKind : name.kind = .identifier) : Derives .typeName [colon, name]
  | initializer {equals : Token} {value : List Token} (kind : equals.kind = .operator .equals)
      (valueDerives : Derives (.expression 0) value) : Derives .initializer (equals :: value)
  | binding {name : Token} {type value : List Token} (kind : name.kind = .identifier)
      (typeDerives : Derives (.optional .typeName) type)
      (valueDerives : Derives (.optional .initializer) value) :
      Derives .binding (name :: (type ++ value))
  | definition {keyword : Token} {binding : List Token} (kind : keyword.kind = .keyword .letWord)
      (bindingDerives : Derives .binding binding) : Derives .variable (keyword :: binding)
  | returned {keyword : Token} {value : List Token} (kind : keyword.kind = .keyword .returnWord)
      (valueDerives : Derives (.expression 0) value) : Derives .statement (keyword :: value)
  | defined {tokens : List Token} (derives : Derives .variable tokens) : Derives .statement tokens
  | evaluated {tokens : List Token} (derives : Derives (.expression 0) tokens) :
      Derives .statement tokens
  | body {arrow opening close : Token} {statements : List Token}
      (arrowKind : arrow.kind = .symbol .arrow) (openingKind : opening.kind = .bracket .openCurly)
      (statementsDerive : Derives (.many .statement) statements)
      (closeKind : close.kind = .bracket .closeCurly) :
      Derives .body (arrow :: opening :: (statements ++ [close]))
  | function {keyword name opening close : Token} {parameters result body : List Token}
      (keywordKind : keyword.kind = .keyword .funcWord) (nameKind : name.kind = .identifier)
      (openingKind : opening.kind = .bracket .openParen)
      (parametersDerive : Derives (.list .binding) parameters)
      (closeKind : close.kind = .bracket .closeParen)
      (resultDerives : Derives (.optional .typeName) result)
      (bodyDerives : Derives (.optional .body) body) :
      Derives .declaration
        (keyword :: name :: opening :: (parameters ++ close :: (result ++ body)))
  | declared {tokens : List Token} (derives : Derives .variable tokens) :
      Derives .declaration tokens
  | absent {part : Nonterminal} : Derives (.optional part) []
  | present {part : Nonterminal} {tokens : List Token} (derives : Derives part tokens) :
      Derives (.optional part) tokens
  | none {part : Nonterminal} : Derives (.many part) []
  | more {part : Nonterminal} {first rest : List Token} (firstDerives : Derives part first)
      (restDerives : Derives (.many part) rest) : Derives (.many part) (first ++ rest)
  | noItem {item : Nonterminal} : Derives (.list item) []
  | lastItem {item : Nonterminal} {tokens : List Token} (derives : Derives item tokens) :
      Derives (.list item) tokens
  | moreItems {item : Nonterminal} {first rest : List Token} {comma : Token}
      (firstDerives : Derives item first) (kind : comma.kind = .symbol .comma)
      (restDerives : Derives (.list item) rest) : Derives (.list item) (first ++ comma :: rest)

/-- What a tighter rule derives the looser ones derive too. -/
theorem Derives.loosen {rank rank' : Nat} {tokens : List Token}
    (derives : Derives (.expression rank') tokens) (looser : rank ≤ rank') :
    Derives (.expression rank) tokens := by
  induction looser using Nat.decreasingInduction with
  | self => exact derives
  | of_succ _ _ inductionHypothesis => exact .tighter inductionHypothesis

end Grammar

/-- The operators that can stand after an operand. -/
def TokenKind.isPostfixSign (kind : TokenKind) : Bool :=
  kind = .operator .plusPlus || kind = .operator .minusMinus

/-- No sign of an increment or a decrement stands directly before an `if`. -/
def SignsApart (kinds : List TokenKind) : Prop :=
  kinds.IsChain fun kind next => kind.isPostfixSign → next ≠ .keyword .ifWord

end FrontEnd
