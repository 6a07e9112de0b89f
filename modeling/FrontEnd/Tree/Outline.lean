/-
This file writes a tree as an outline: a line for each node and each of its parts, indented by
their depth.
-/

import FrontEnd.Binary64.Printer
import FrontEnd.Layout
import FrontEnd.Text.Quoted
import FrontEnd.Tree.Basic

namespace FrontEnd

namespace Outline

open Layout (Step)

/-- A node is its sort and the parts below it. -/
def node (sort : String) (parts : List Step) : List Step :=
  [.writeLine sort, .indent] ++ parts ++ [.dedent]

/-- A line for a value of a node. -/
def field (name value : String) : List Step := [.writeLine (name ++ ": " ++ value)]

/-- A part of a node stands below its name, one level deeper. -/
def child (name : String) (steps : List Step) : List Step :=
  [.writeLine (name ++ ":"), .indent] ++ steps ++ [.dedent]

/-- A part that is missing has no lines. -/
def optional (name : String) (steps : Option (List Step)) : List Step :=
  (steps.map (child name)).getD []

/-- An empty list has a line of its own. -/
def children (name : String) (items : List (List Step)) : List Step :=
  if items.isEmpty then [.writeLine (name ++ ": []")] else child name items.flatten

end Outline

open Layout (Step)

def Identifier.outline (name : Identifier) : List Step :=
  Outline.node "Identifier"
    (Outline.field "name" name.token.lexeme ++
      if name.token.error then Outline.field "error" "true" else [])

mutual

def Expression.outline : Expression → List Step
  | .identifier name => name.outline
  | .boolean _ value =>
      Outline.node "LiteralBoolean" (Outline.field "value" (if value then "true" else "false"))
  | .number _ value => Outline.node "LiteralNumber" (Outline.field "value" value.print)
  | .string _ value => Outline.node "LiteralString" (Outline.field "value" (Text.quote value))
  | .binary left operation _ right =>
      Outline.node "BinaryExpression"
        (Outline.field "operator" operation.name ++ Outline.child "left" left.outline ++
          Outline.child "right" right.outline)
  | .prefixed operation _ operand =>
      Outline.node "PrefixExpression"
        (Outline.field "operator" operation.name ++ Outline.child "expression" operand.outline)
  | .postfixed operand operation _ =>
      Outline.node "PostfixExpression"
        (Outline.field "operator" operation.name ++ Outline.child "expression" operand.outline)
  | .call receiver arguments _ =>
      Outline.node "CallExpression"
        (Outline.child "receiver" receiver.outline ++
          Outline.children "arguments" (Expression.outlineAll arguments))
  | .property receiver name =>
      Outline.node "PropertyExpression"
        (Outline.child "receiver" receiver.outline ++ Outline.child "property" name.outline)
  | .group _ content _ =>
      Outline.node "GroupExpression" (Outline.child "expression" content.outline)
  | .conditional _ condition consequent alternative =>
      Outline.node "ConditionalExpression"
        (Outline.child "condition" condition.outline ++ Outline.child "then" consequent.outline ++
          Outline.child "else" alternative.outline)

def Expression.outlineAll : List Expression → List (List Step)
  | [] => []
  | first :: rest => first.outline :: Expression.outlineAll rest

end

def Variable.outline (definition : Variable) : List Step :=
  Outline.node "VariableDefinition"
    (Outline.child "name" definition.name.outline ++
      Outline.optional "type" (definition.type.map Identifier.outline) ++
      Outline.optional "value" (definition.value.map Expression.outline))

def Statement.outline : Statement → List Step
  | .expression value => value.outline
  | .returned _ value =>
      Outline.node "ReturnStatement" (Outline.child "expression" value.outline)
  | .variable definition => definition.outline
  | .recovery token =>
      Outline.node "RecoveryNode" (Outline.field "offset" (toString token.offset))

def Block.outline (block : Block) : List Step :=
  Outline.node "StatementBlock"
    (Outline.children "statements" (block.statements.map Statement.outline))

def Parameter.outline (parameter : Parameter) : List Step :=
  Outline.node "Parameter"
    (Outline.child "name" parameter.name.outline ++
      Outline.optional "type" (parameter.type.map Identifier.outline) ++
      Outline.optional "default" (parameter.default.map Expression.outline))

def ParameterList.outline (list : ParameterList) : List Step :=
  Outline.node "ParameterList"
    (Outline.children "parameters" (list.parameters.map Parameter.outline))

def FunctionDeclaration.outline (declared : FunctionDeclaration) : List Step :=
  Outline.node "FunctionDeclaration"
    (Outline.child "name" declared.name.outline ++
      Outline.child "parameters" declared.parameters.outline ++
      Outline.optional "returns" (declared.result.map Identifier.outline) ++
      Outline.optional "body" (declared.body.map Block.outline))

def Declaration.outline : Declaration → List Step
  | .function declared => declared.outline
  | .variable definition => definition.outline

def Module.outline (module : Module) : List Step :=
  Outline.node "ModuleDeclaration"
    (Outline.children "declarations" (module.declarations.map Declaration.outline))

def Root.outline (root : Root) : List Step :=
  Outline.node "ModuleRoot" (Outline.children "modules" (root.modules.map Module.outline))

namespace Node

/-- The steps that draw a node with all its parts. -/
def outlineSteps : Node → List Step
  | .expression value => value.outline
  | .returned keyword value => Statement.outline (.returned keyword value)
  | .variable definition => definition.outline
  | .recovery token => Statement.outline (.recovery token)
  | .block body => body.outline
  | .parameter declared => declared.outline
  | .parameterList list => list.outline
  | .function declared => declared.outline
  | .module body => body.outline
  | .root whole => whole.outline

/-- The outline of a node, which ends with a line feed. -/
def outline (node : Node) : String := Layout.print node.outlineSteps

end Node

end FrontEnd
