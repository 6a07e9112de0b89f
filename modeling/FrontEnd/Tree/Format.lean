/-
This file writes a tree in its canonical form: one space around operators, one statement to a
line, blocks indented.
-/

import FrontEnd.Binary64.Printer
import FrontEnd.Layout
import FrontEnd.Tree.Extent

namespace FrontEnd

open Layout (Step)

/-- A separator stands between neighbours. -/
def separated (separator : String) (parts : List (List Step)) : List Step :=
  (parts.intersperse [.write separator]).flatten

/-- A string has no escapes, so the quote is one that its contents do not hold. -/
def quoteFor (value : String) : String := if value.toList.contains '\'' then "\"" else "'"

/-- A sign before an operand that starts with the same character is kept apart from it. -/
def prefixSteps (operation : Operation) (operand : Expression) : List Step :=
  let sign := operation.spelling
  if sign.toList.head?.isSome && sign.toList.head? = operand.first.lexeme.toList.head? then
    [.write sign, .write " "]
  else
    [.write sign]

def Identifier.format (name : Identifier) : List Step := [.write name.token.lexeme]

mutual

def Expression.format : Expression → List Step
  | .identifier name => name.format
  | .boolean _ value => [.write (if value then "true" else "false")]
  | .number _ value => [.write value.print]
  | .string _ value => [.write (quoteFor value), .verbatim value, .write (quoteFor value)]
  | .binary left operation _ right =>
      left.format ++ [.write " ", .write operation.spelling, .write " "] ++ right.format
  | .prefixed operation _ operand => prefixSteps operation operand ++ operand.format
  | .postfixed operand operation _ => operand.format ++ [.write operation.spelling]
  | .call receiver arguments _ =>
      receiver.format ++ [.write "("] ++ separated ", " (Expression.formatAll arguments) ++
        [.write ")"]
  | .property receiver name => receiver.format ++ [.write "."] ++ name.format
  | .group _ content _ => [.write "("] ++ content.format ++ [.write ")"]
  | .conditional _ condition consequent alternative =>
      [.write "if "] ++ condition.format ++ [.write " then "] ++ consequent.format ++
        [.write " else "] ++ alternative.format

def Expression.formatAll : List Expression → List (List Step)
  | [] => []
  | first :: rest => first.format :: Expression.formatAll rest

end

/-- A name with its type and its value. -/
def formatBinding (name : Identifier) (type : Option Identifier)
    (value : Option Expression) : List Step :=
  name.format ++
    type.toList.flatMap (fun type => .write ": " :: type.format) ++
    value.toList.flatMap (fun value => .write " = " :: value.format)

def Variable.format (definition : Variable) : List Step :=
  .write "let " :: formatBinding definition.name definition.type definition.value

def Statement.format : Statement → List Step
  | .expression value => value.format
  | .returned _ value => .write "return " :: value.format
  | .variable definition => definition.format
  | .recovery _ => [.write Token.placeholderText]

/-- An empty block stays on its line. -/
def Block.format (block : Block) : List Step :=
  if block.statements.isEmpty then [.write "\x7b\x7d"]
  else
    [.write "\x7b", .indent] ++
      block.statements.flatMap (fun statement => .write "\n" :: statement.format) ++
      [.dedent, .write "\n\x7d"]

def Parameter.format (parameter : Parameter) : List Step :=
  formatBinding parameter.name parameter.type parameter.default

def ParameterList.format (list : ParameterList) : List Step :=
  [.write "("] ++ separated ", " (list.parameters.map Parameter.format) ++ [.write ")"]

def FunctionDeclaration.format (declared : FunctionDeclaration) : List Step :=
  .write "func " :: (declared.name.format ++ declared.parameters.format ++
    declared.result.toList.flatMap (fun result => .write ": " :: result.format) ++
    declared.body.toList.flatMap (fun body => .write " -> " :: body.format))

def Declaration.format : Declaration → List Step
  | .function declared => declared.format
  | .variable definition => definition.format

def Module.format (module : Module) : List Step :=
  separated "\n" (module.declarations.map Declaration.format)

def Root.format (root : Root) : List Step := separated "\n" (root.modules.map Module.format)

namespace Node

/-- The steps that write a node as canonical text. -/
def formatSteps : Node → List Step
  | .expression value => value.format
  | .returned keyword value => Statement.format (.returned keyword value)
  | .variable definition => definition.format
  | .recovery token => Statement.format (.recovery token)
  | .block body => body.format
  | .parameter declared => declared.format
  | .parameterList list => list.format
  | .function declared => declared.format
  | .module body => body.format
  | .root whole => whole.format

/-- The canonical text of a node. -/
def format (node : Node) : String := Layout.print node.formatSteps

end Node

end FrontEnd
