/-
This file moves the tokens of a tree to other offsets. Everything but the offsets stays as it is.
-/

import FrontEnd.Tree.Format

namespace FrontEnd

/-- A token moves as its offset does, and keeps its kind and its lexeme. -/
def Token.relocate (move : Nat → Nat) (token : Token) : Token :=
  { token with offset := move token.offset }

section Tokens

variable (move : Nat → Nat) (token : Token)

@[simp] theorem Token.relocate_kind : (token.relocate move).kind = token.kind := rfl

@[simp] theorem Token.relocate_lexeme : (token.relocate move).lexeme = token.lexeme := rfl

@[simp] theorem Token.relocate_isEof : (token.relocate move).isEof = token.isEof := rfl

/-- A moved operator means what it meant. -/
@[simp] theorem Token.relocate_operation? (fixity : Fixity) :
    (token.relocate move).operation? fixity = token.operation? fixity := rfl

end Tokens

@[simp] theorem Token.relocate_id : Token.relocate id = id := rfl

def Identifier.relocate (move : Nat → Nat) (name : Identifier) : Identifier :=
  ⟨name.token.relocate move⟩

mutual

/-- An expression moves with all its tokens, and its values stay. -/
def Expression.relocate (move : Nat → Nat) : Expression → Expression
  | .identifier name => .identifier (name.relocate move)
  | .boolean token value => .boolean (token.relocate move) value
  | .number token value => .number (token.relocate move) value
  | .string token value => .string (token.relocate move) value
  | .binary left operation token right =>
      .binary (left.relocate move) operation (token.relocate move) (right.relocate move)
  | .prefixed operation token operand =>
      .prefixed operation (token.relocate move) (operand.relocate move)
  | .postfixed operand operation token =>
      .postfixed (operand.relocate move) operation (token.relocate move)
  | .call receiver arguments close =>
      .call (receiver.relocate move) (Expression.relocateAll move arguments)
        (close.relocate move)
  | .property receiver name => .property (receiver.relocate move) (name.relocate move)
  | .group opening content close =>
      .group (opening.relocate move) (content.relocate move) (close.relocate move)
  | .conditional keyword condition consequent alternative =>
      .conditional (keyword.relocate move) (condition.relocate move) (consequent.relocate move)
        (alternative.relocate move)

def Expression.relocateAll (move : Nat → Nat) : List Expression → List Expression
  | [] => []
  | first :: rest => first.relocate move :: Expression.relocateAll move rest

end

/-- The arguments of a call move one by one. -/
@[simp] theorem Expression.relocateAll_eq_map (move : Nat → Nat) (values : List Expression) :
    Expression.relocateAll move values = values.map (Expression.relocate move) := by
  induction values with
  | nil => rfl
  | cons first rest inductionHypothesis =>
      rw [Expression.relocateAll, inductionHypothesis, List.map_cons]

def Variable.relocate (move : Nat → Nat) (definition : Variable) : Variable where
  keyword := definition.keyword.relocate move
  name := definition.name.relocate move
  type := definition.type.map (Identifier.relocate move)
  value := definition.value.map (Expression.relocate move)

/-- A statement moves with all its tokens. -/
def Statement.relocate (move : Nat → Nat) : Statement → Statement
  | .expression value => .expression (value.relocate move)
  | .returned keyword value => .returned (keyword.relocate move) (value.relocate move)
  | .variable definition => .variable (definition.relocate move)
  | .recovery token => .recovery (token.relocate move)

def Block.relocate (move : Nat → Nat) (block : Block) : Block where
  opening := block.opening.relocate move
  statements := block.statements.map (Statement.relocate move)
  close := block.close.relocate move

def Parameter.relocate (move : Nat → Nat) (parameter : Parameter) : Parameter where
  name := parameter.name.relocate move
  type := parameter.type.map (Identifier.relocate move)
  default := parameter.default.map (Expression.relocate move)

def ParameterList.relocate (move : Nat → Nat) (list : ParameterList) : ParameterList where
  opening := list.opening.relocate move
  parameters := list.parameters.map (Parameter.relocate move)
  close := list.close.relocate move

def FunctionDeclaration.relocate (move : Nat → Nat) (declared : FunctionDeclaration) :
    FunctionDeclaration where
  keyword := declared.keyword.relocate move
  name := declared.name.relocate move
  parameters := declared.parameters.relocate move
  result := declared.result.map (Identifier.relocate move)
  body := declared.body.map (Block.relocate move)

/-- A declaration moves with all its tokens. -/
def Declaration.relocate (move : Nat → Nat) : Declaration → Declaration
  | .function declared => .function (declared.relocate move)
  | .variable definition => .variable (definition.relocate move)

/-- The boundary of a module is a token, and moves. -/
def Module.relocate (move : Nat → Nat) (module : Module) : Module where
  declarations := module.declarations.map (Declaration.relocate move)
  boundary := module.boundary.relocate move

/-- The marker of a file is a token, and moves. -/
def Root.relocate (move : Nat → Nat) (root : Root) : Root where
  modules := root.modules.map (Module.relocate move)
  marker := root.marker.relocate move

/-- A node moves with all its tokens. -/
def Node.relocate (move : Nat → Nat) : Node → Node
  | .expression value => .expression (value.relocate move)
  | .returned keyword value => .returned (keyword.relocate move) (value.relocate move)
  | .variable definition => .variable (definition.relocate move)
  | .recovery token => .recovery (token.relocate move)
  | .block body => .block (body.relocate move)
  | .parameter declared => .parameter (declared.relocate move)
  | .parameterList list => .parameterList (list.relocate move)
  | .function declared => .function (declared.relocate move)
  | .module body => .module (body.relocate move)
  | .root whole => .root (whole.relocate move)

@[simp] theorem Identifier.relocate_id : Identifier.relocate id = id := rfl

/-- By induction, moving nothing leaves an expression as it is. -/
@[simp] theorem Expression.relocate_id : Expression.relocate id = id := by
  funext value
  induction value with
  | call receiver arguments close receiverSame argumentsSame =>
      have same : arguments.map (Expression.relocate id) = arguments := by
        rw [List.map_congr_left argumentsSame, List.map_id]
      simp [Expression.relocate, receiverSame, same]
  | _ => simp_all [Expression.relocate]

@[simp] theorem Variable.relocate_id : Variable.relocate id = id := by
  funext definition
  simp [Variable.relocate]

/-- Moving nothing leaves a statement as it is. -/
@[simp] theorem Statement.relocate_id : Statement.relocate id = id := by
  funext statement
  cases statement <;> simp [Statement.relocate]

@[simp] theorem Block.relocate_id : Block.relocate id = id := by
  funext block
  simp [Block.relocate]

@[simp] theorem Parameter.relocate_id : Parameter.relocate id = id := by
  funext parameter
  simp [Parameter.relocate]

@[simp] theorem ParameterList.relocate_id : ParameterList.relocate id = id := by
  funext list
  simp [ParameterList.relocate]

/-- Moving nothing leaves a function as it is. -/
@[simp] theorem FunctionDeclaration.relocate_id : FunctionDeclaration.relocate id = id := by
  funext declared
  simp [FunctionDeclaration.relocate]

@[simp] theorem Declaration.relocate_id : Declaration.relocate id = id := by
  funext declaration
  cases declaration <;> simp [Declaration.relocate]

@[simp] theorem Module.relocate_id : Module.relocate id = id := by
  funext module
  simp [Module.relocate]

/-- Moving nothing leaves a file as it is. -/
@[simp] theorem Root.relocate_id : Root.relocate id = id := by
  funext root
  simp [Root.relocate]

/-- Moving nothing leaves a node as it is. -/
@[simp] theorem Node.relocate_id : Node.relocate id = id := by
  funext node
  cases node <;> simp [Node.relocate]

end FrontEnd
