/-
This file compares trees token by token. Numbers are compared as numbers, so a tree that holds no
number in a literal's place differs from itself.
-/

import FrontEnd.Tree.Basic

namespace FrontEnd

mutual

/-- Expressions are compared part by part. -/
def Expression.equals : Expression → Expression → Bool
  | .identifier name, .identifier name' => name = name'
  | .boolean token value, .boolean token' value' => token = token' && value = value'
  | .number token value, .number token' value' => token = token' && value == value'
  | .string token value, .string token' value' => token = token' && value = value'
  | .binary left operation token right, .binary left' operation' token' right' =>
      left.equals left' && operation = operation' && token = token' && right.equals right'
  | .prefixed operation token operand, .prefixed operation' token' operand' =>
      operation = operation' && token = token' && operand.equals operand'
  | .postfixed operand operation token, .postfixed operand' operation' token' =>
      operand.equals operand' && operation = operation' && token = token'
  | .call receiver arguments close, .call receiver' arguments' close' =>
      receiver.equals receiver' && Expression.equalsAll arguments arguments' && close = close'
  | .property receiver name, .property receiver' name' =>
      receiver.equals receiver' && name = name'
  | .group opening content close, .group opening' content' close' =>
      opening = opening' && content.equals content' && close = close'
  | .conditional keyword condition consequent alternative,
      .conditional keyword' condition' consequent' alternative' =>
      keyword = keyword' && condition.equals condition' && consequent.equals consequent' &&
        alternative.equals alternative'
  | _, _ => false

def Expression.equalsAll : List Expression → List Expression → Bool
  | [], [] => true
  | first :: rest, first' :: rest' => first.equals first' && Expression.equalsAll rest rest'
  | _, _ => false

end

instance : BEq Expression := ⟨Expression.equals⟩

deriving instance BEq for Variable
deriving instance BEq for Statement
deriving instance BEq for Block
deriving instance BEq for Parameter
deriving instance BEq for ParameterList
deriving instance BEq for FunctionDeclaration
deriving instance BEq for Declaration
deriving instance BEq for Module
deriving instance BEq for Root
deriving instance BEq for Node

end FrontEnd
