/-
This file strips trees of their tokens. What is left are the names with their error flags, the
values, the operations and the places of the recovery statements, in the shape of the tree. An
outline draws this and nothing else.
-/

import FrontEnd.Proofs.Parser.Decoding
import FrontEnd.Proofs.Sketch

namespace FrontEnd

/-- The token that is left of one that does not matter. -/
def Token.blank : Token := Token.eof 0

/-- A name without its offset keeps its lexeme and whether it was put in. -/
def Identifier.bare (name : Identifier) : Identifier :=
  ⟨⟨0, .identifier, name.token.lexeme, name.token.error⟩⟩

mutual

/-- An expression without its tokens keeps its names, its operations and its values. -/
def Expression.bare : Expression → Expression
  | .identifier name => .identifier name.bare
  | .boolean _ value => .boolean .blank value
  | .number _ value => .number .blank value
  | .string _ value => .string .blank value
  | .binary left operation _ right => .binary left.bare operation .blank right.bare
  | .prefixed operation _ operand => .prefixed operation .blank operand.bare
  | .postfixed operand operation _ => .postfixed operand.bare operation .blank
  | .call receiver arguments _ => .call receiver.bare (Expression.bareAll arguments) .blank
  | .property receiver name => .property receiver.bare name.bare
  | .group _ content _ => .group .blank content.bare .blank
  | .conditional _ condition consequent alternative =>
      .conditional .blank condition.bare consequent.bare alternative.bare

def Expression.bareAll : List Expression → List Expression
  | [] => []
  | first :: rest => first.bare :: Expression.bareAll rest

end

/-- A variable without the offsets of its tokens. -/
def Variable.bare (definition : Variable) : Variable :=
  ⟨.blank, definition.name.bare, definition.type.map Identifier.bare,
    definition.value.map Expression.bare⟩

/-- A recovery statement keeps its offset. -/
def Statement.bare : Statement → Statement
  | .expression value => .expression value.bare
  | .returned _ value => .returned .blank value.bare
  | .variable definition => .variable definition.bare
  | .recovery token => .recovery (Token.eof token.offset)

/-- A block without its brackets. -/
def Block.bare (block : Block) : Block := ⟨.blank, block.statements.map Statement.bare, .blank⟩

def Parameter.bare (parameter : Parameter) : Parameter :=
  ⟨parameter.name.bare, parameter.type.map Identifier.bare,
    parameter.default.map Expression.bare⟩

def ParameterList.bare (list : ParameterList) : ParameterList :=
  ⟨.blank, list.parameters.map Parameter.bare, .blank⟩

/-- A function without its keyword. -/
def FunctionDeclaration.bare (declared : FunctionDeclaration) : FunctionDeclaration :=
  ⟨.blank, declared.name.bare, declared.parameters.bare, declared.result.map Identifier.bare,
    declared.body.map Block.bare⟩

def Declaration.bare : Declaration → Declaration
  | .function declared => .function declared.bare
  | .variable definition => .variable definition.bare

/-- A module without its boundary. -/
def Module.bare (module : Module) : Module :=
  ⟨module.declarations.map Declaration.bare, .blank⟩

/-- A file without its marker. -/
def Root.bare (root : Root) : Root := ⟨root.modules.map Module.bare, .blank⟩

/-- A node without the tokens that an outline does not show. -/
def Node.bare : Node → Node
  | .expression value => .expression value.bare
  | .returned _ value => .returned .blank value.bare
  | .variable definition => .variable definition.bare
  | .recovery token => .recovery (Token.eof token.offset)
  | .block body => .block body.bare
  | .parameter declared => .parameter declared.bare
  | .parameterList list => .parameterList list.bare
  | .function declared => .function declared.bare
  | .module body => .module body.bare
  | .root whole => .root whole.bare

/-- A name is shown with its lexeme, and with a mark when it was put in. -/
def Identifier.sketch (name : Identifier) : Sketch :=
  Sketch.nested "Identifier" ((Sketch.field "name" name.token.lexeme).append
    (if name.token.error then Sketch.field "error" "true" else .blank))

mutual

/-- An expression is shown by its sort with its parts below. -/
def Expression.sketch : Expression → Sketch
  | .identifier name => name.sketch
  | .boolean _ value =>
      Sketch.nested "LiteralBoolean" (Sketch.field "value" (if value then "true" else "false"))
  | .number _ value => Sketch.nested "LiteralNumber" (Sketch.field "value" value.print)
  | .string _ value => Sketch.nested "LiteralString" (Sketch.field "value" (Text.quote value))
  | .binary left operation _ right =>
      Sketch.nested "BinaryExpression" (((Sketch.field "operator" operation.name).append
        (Sketch.child "left" left.sketch)).append (Sketch.child "right" right.sketch))
  | .prefixed operation _ operand =>
      Sketch.nested "PrefixExpression" ((Sketch.field "operator" operation.name).append
        (Sketch.child "expression" operand.sketch))
  | .postfixed operand operation _ =>
      Sketch.nested "PostfixExpression" ((Sketch.field "operator" operation.name).append
        (Sketch.child "expression" operand.sketch))
  | .call receiver arguments _ =>
      Sketch.nested "CallExpression" ((Sketch.child "receiver" receiver.sketch).append
        (Sketch.children "arguments" (Expression.sketchAll arguments)))
  | .property receiver name =>
      Sketch.nested "PropertyExpression" ((Sketch.child "receiver" receiver.sketch).append
        (Sketch.child "property" name.sketch))
  | .group _ content _ => Sketch.nested "GroupExpression" (Sketch.child "expression" content.sketch)
  | .conditional _ condition consequent alternative =>
      Sketch.nested "ConditionalExpression" (((Sketch.child "condition" condition.sketch).append
        (Sketch.child "then" consequent.sketch)).append (Sketch.child "else" alternative.sketch))

def Expression.sketchAll : List Expression → List Sketch
  | [] => []
  | first :: rest => first.sketch :: Expression.sketchAll rest

end

/-- A name with its type and its value. -/
def sketchOfBinding (sort last : String) (name : Identifier) (type : Option Identifier)
    (value : Option Expression) : Sketch :=
  Sketch.nested sort (((Sketch.child "name" name.sketch).append
    (Sketch.optional "type" (type.map Identifier.sketch))).append
      (Sketch.optional last (value.map Expression.sketch)))

def Variable.sketch (definition : Variable) : Sketch :=
  sketchOfBinding "VariableDefinition" "value" definition.name definition.type definition.value

def Statement.sketch : Statement → Sketch
  | .expression value => value.sketch
  | .returned _ value => Sketch.nested "ReturnStatement" (Sketch.child "expression" value.sketch)
  | .variable definition => definition.sketch
  | .recovery token => Sketch.nested "RecoveryNode" (Sketch.field "offset" (toString token.offset))

def Block.sketch (block : Block) : Sketch :=
  Sketch.nested "StatementBlock"
    (Sketch.children "statements" (block.statements.map Statement.sketch))

def Parameter.sketch (parameter : Parameter) : Sketch :=
  sketchOfBinding "Parameter" "default" parameter.name parameter.type parameter.default

def ParameterList.sketch (list : ParameterList) : Sketch :=
  Sketch.nested "ParameterList"
    (Sketch.children "parameters" (list.parameters.map Parameter.sketch))

def FunctionDeclaration.sketch (declared : FunctionDeclaration) : Sketch :=
  Sketch.nested "FunctionDeclaration" ((((Sketch.child "name" declared.name.sketch).append
    (Sketch.child "parameters" declared.parameters.sketch)).append
      (Sketch.optional "returns" (declared.result.map Identifier.sketch))).append
        (Sketch.optional "body" (declared.body.map Block.sketch)))

def Declaration.sketch : Declaration → Sketch
  | .function declared => declared.sketch
  | .variable definition => definition.sketch

def Module.sketch (module : Module) : Sketch :=
  Sketch.nested "ModuleDeclaration"
    (Sketch.children "declarations" (module.declarations.map Declaration.sketch))

def Root.sketch (root : Root) : Sketch :=
  Sketch.nested "ModuleRoot" (Sketch.children "modules" (root.modules.map Module.sketch))

def Node.sketch : Node → Sketch
  | .expression value => value.sketch
  | .returned keyword value => Statement.sketch (.returned keyword value)
  | .variable definition => definition.sketch
  | .recovery token => Statement.sketch (.recovery token)
  | .block body => body.sketch
  | .parameter declared => declared.sketch
  | .parameterList list => list.sketch
  | .function declared => declared.sketch
  | .module body => body.sketch
  | .root whole => whole.sketch

theorem Expression.bareAll_eq_map (values : List Expression) :
    Expression.bareAll values = values.map Expression.bare := by
  induction values with
  | nil => rfl
  | cons first rest inductionHypothesis => rw [bareAll, inductionHypothesis, List.map_cons]

theorem Expression.sketchAll_eq_map (values : List Expression) :
    Expression.sketchAll values = values.map Expression.sketch := by
  induction values with
  | nil => rfl
  | cons first rest inductionHypothesis => rw [sketchAll, inductionHypothesis, List.map_cons]

end FrontEnd
