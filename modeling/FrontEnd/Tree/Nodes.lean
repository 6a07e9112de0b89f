/-
This file lists the nodes of a tree in source order, each before the nodes below it.
-/

import FrontEnd.Tree.Basic

namespace FrontEnd

/-- A node with the number of nodes above it. -/
abbrev Leveled := Nat × Node

def Identifier.nodes (depth : Nat) (name : Identifier) : List Leveled := [(depth, name.node)]

mutual

def Expression.nodes (depth : Nat) : Expression → List Leveled
  | .identifier name => name.nodes depth
  | .boolean token value => [(depth, .expression (.boolean token value))]
  | .number token value => [(depth, .expression (.number token value))]
  | .string token value => [(depth, .expression (.string token value))]
  | .binary left operation token right =>
      (depth, .expression (.binary left operation token right)) ::
        (left.nodes (depth + 1) ++ right.nodes (depth + 1))
  | .prefixed operation token operand =>
      (depth, .expression (.prefixed operation token operand)) :: operand.nodes (depth + 1)
  | .postfixed operand operation token =>
      (depth, .expression (.postfixed operand operation token)) :: operand.nodes (depth + 1)
  | .call receiver arguments close =>
      (depth, .expression (.call receiver arguments close)) ::
        (receiver.nodes (depth + 1) ++ Expression.nodesOfAll (depth + 1) arguments)
  | .property receiver name =>
      (depth, .expression (.property receiver name)) ::
        (receiver.nodes (depth + 1) ++ name.nodes (depth + 1))
  | .group opening content close =>
      (depth, .expression (.group opening content close)) :: content.nodes (depth + 1)
  | .conditional keyword condition consequent alternative =>
      (depth, .expression (.conditional keyword condition consequent alternative)) ::
        (condition.nodes (depth + 1) ++ consequent.nodes (depth + 1) ++
          alternative.nodes (depth + 1))

def Expression.nodesOfAll (depth : Nat) : List Expression → List Leveled
  | [] => []
  | first :: rest => first.nodes depth ++ Expression.nodesOfAll depth rest

end

/-- The nodes of a name, its type and its value. -/
def nodesOfBinding (depth : Nat) (name : Identifier) (type : Option Identifier)
    (value : Option Expression) : List Leveled :=
  name.nodes depth ++ type.toList.flatMap (·.nodes depth) ++
    value.toList.flatMap (·.nodes depth)

def Variable.nodes (depth : Nat) (definition : Variable) : List Leveled :=
  (depth, .variable definition) ::
    nodesOfBinding (depth + 1) definition.name definition.type definition.value

def Statement.nodes (depth : Nat) : Statement → List Leveled
  | .expression value => value.nodes depth
  | .returned keyword value => (depth, .returned keyword value) :: value.nodes (depth + 1)
  | .variable definition => definition.nodes depth
  | .recovery token => [(depth, .recovery token)]

def Block.nodes (depth : Nat) (block : Block) : List Leveled :=
  (depth, .block block) :: block.statements.flatMap (·.nodes (depth + 1))

def Parameter.nodes (depth : Nat) (parameter : Parameter) : List Leveled :=
  (depth, .parameter parameter) ::
    nodesOfBinding (depth + 1) parameter.name parameter.type parameter.default

def ParameterList.nodes (depth : Nat) (list : ParameterList) : List Leveled :=
  (depth, .parameterList list) :: list.parameters.flatMap (·.nodes (depth + 1))

def FunctionDeclaration.nodes (depth : Nat) (declared : FunctionDeclaration) : List Leveled :=
  (depth, .function declared) ::
    (declared.name.nodes (depth + 1) ++ declared.parameters.nodes (depth + 1) ++
      declared.result.toList.flatMap (·.nodes (depth + 1)) ++
      declared.body.toList.flatMap (·.nodes (depth + 1)))

def Declaration.nodes (depth : Nat) : Declaration → List Leveled
  | .function declared => declared.nodes depth
  | .variable definition => definition.nodes depth

def Module.nodes (depth : Nat) (module : Module) : List Leveled :=
  (depth, .module module) :: module.declarations.flatMap (·.nodes (depth + 1))

def Root.nodes (depth : Nat) (root : Root) : List Leveled :=
  (depth, .root root) :: root.modules.flatMap (·.nodes (depth + 1))

/-- The node itself and all nodes below it. -/
def Node.nodes (depth : Nat) : Node → List Leveled
  | .expression value => value.nodes depth
  | .returned keyword value => Statement.nodes depth (.returned keyword value)
  | .variable definition => definition.nodes depth
  | .recovery token => Statement.nodes depth (.recovery token)
  | .block body => body.nodes depth
  | .parameter declared => declared.nodes depth
  | .parameterList list => list.nodes depth
  | .function declared => declared.nodes depth
  | .module body => body.nodes depth
  | .root whole => whole.nodes depth

end FrontEnd
