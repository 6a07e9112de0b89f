/-
This file holds the syntax tree. Every node keeps the tokens that it was made of.
-/

import FrontEnd.Binary64.Basic
import FrontEnd.Tree.Operation

namespace FrontEnd

/-- A name is an identifier token, or its placeholder. -/
structure Identifier where
  token : Token
  deriving DecidableEq, Repr

/-- Literals keep their decoded values beside their tokens. -/
inductive Expression where
  | identifier (name : Identifier)
  | boolean (token : Token) (value : Bool)
  | number (token : Token) (value : Binary64)
  | string (token : Token) (value : String)
  | binary (left : Expression) (operation : Operation) (token : Token) (right : Expression)
  | prefixed (operation : Operation) (token : Token) (operand : Expression)
  | postfixed (operand : Expression) (operation : Operation) (token : Token)
  | call (receiver : Expression) (arguments : List Expression) (close : Token)
  | property (receiver : Expression) (name : Identifier)
  | group (opening : Token) (content : Expression) (close : Token)
  | conditional (keyword : Token) (condition consequent alternative : Expression)
  deriving Repr

/-- A property of all expressions holds when every form inherits it from its parts. -/
@[elab_as_elim, induction_eliminator]
theorem Expression.byParts {motive : Expression → Prop}
    (identifier : ∀ name, motive (.identifier name))
    (boolean : ∀ token value, motive (.boolean token value))
    (number : ∀ token value, motive (.number token value))
    (string : ∀ token value, motive (.string token value))
    (binary : ∀ left operation token right, motive left → motive right →
      motive (.binary left operation token right))
    (prefixed : ∀ operation token operand, motive operand →
      motive (.prefixed operation token operand))
    (postfixed : ∀ operand operation token, motive operand →
      motive (.postfixed operand operation token))
    (call : ∀ receiver arguments close, motive receiver →
      (∀ argument ∈ arguments, motive argument) → motive (.call receiver arguments close))
    (property : ∀ receiver name, motive receiver → motive (.property receiver name))
    (group : ∀ opening content close, motive content → motive (.group opening content close))
    (conditional : ∀ keyword condition consequent alternative, motive condition →
      motive consequent → motive alternative →
      motive (.conditional keyword condition consequent alternative))
    (value : Expression) : motive value := by
  have none : ∀ argument ∈ ([] : List Expression), motive argument := by simp
  have more : ∀ (first : Expression) (rest : List Expression), motive first →
      (∀ argument ∈ rest, motive argument) → ∀ argument ∈ first :: rest, motive argument :=
    fun first rest head tail => List.forall_mem_cons.2 ⟨head, tail⟩
  exact @Expression.rec motive (fun arguments => ∀ argument ∈ arguments, motive argument)
    identifier boolean number string binary prefixed postfixed call property group conditional
    none more value

/-- The type and the value of a variable are optional. -/
structure Variable where
  keyword : Token
  name : Identifier
  type : Option Identifier
  value : Option Expression
  deriving Repr

/-- A recovery statement stands for a token that starts no statement. -/
inductive Statement where
  | expression (value : Expression)
  | returned (keyword : Token) (value : Expression)
  | variable (definition : Variable)
  | recovery (token : Token)
  deriving Repr

/-- The statements between curly brackets. -/
structure Block where
  opening : Token
  statements : List Statement
  close : Token
  deriving Repr

/-- A name with an optional type and an optional default value. -/
structure Parameter where
  name : Identifier
  type : Option Identifier
  default : Option Expression
  deriving Repr

/-- The parameters between parentheses. -/
structure ParameterList where
  opening : Token
  parameters : List Parameter
  close : Token
  deriving Repr

/-- A function may lack a result type and a body. -/
structure FunctionDeclaration where
  keyword : Token
  name : Identifier
  parameters : ParameterList
  result : Option Identifier
  body : Option Block
  deriving Repr

/-- What can stand at the top of a file. -/
inductive Declaration where
  | function (declared : FunctionDeclaration)
  | variable (definition : Variable)
  deriving Repr

/-- The boundary is the token where the declarations start, and stands in for an empty module. -/
structure Module where
  declarations : List Declaration
  boundary : Token
  deriving Repr

/-- The modules of a file with the marker behind them. -/
structure Root where
  modules : List Module
  marker : Token
  deriving Repr

/-- A node of any sort. An identifier is the expression that names it. -/
inductive Node where
  | expression (value : Expression)
  | returned (keyword : Token) (value : Expression)
  | variable (definition : Variable)
  | recovery (token : Token)
  | block (body : Block)
  | parameter (declared : Parameter)
  | parameterList (list : ParameterList)
  | function (declared : FunctionDeclaration)
  | module (body : Module)
  | root (whole : Root)
  deriving Repr

def Identifier.node (name : Identifier) : Node := .expression (.identifier name)

/-- An expression is a statement without more about it. -/
def Statement.node : Statement → Node
  | .expression value => .expression value
  | .returned keyword value => .returned keyword value
  | .variable definition => .variable definition
  | .recovery token => .recovery token

def Declaration.node : Declaration → Node
  | .function declared => .function declared
  | .variable definition => .variable definition

/-- The name of a node's sort. -/
def Node.sort : Node → String
  | .expression (.identifier _) => "Identifier"
  | .expression (.boolean ..) => "LiteralBoolean"
  | .expression (.number ..) => "LiteralNumber"
  | .expression (.string ..) => "LiteralString"
  | .expression (.binary ..) => "BinaryExpression"
  | .expression (.prefixed ..) => "PrefixExpression"
  | .expression (.postfixed ..) => "PostfixExpression"
  | .expression (.call ..) => "CallExpression"
  | .expression (.property ..) => "PropertyExpression"
  | .expression (.group ..) => "GroupExpression"
  | .expression (.conditional ..) => "ConditionalExpression"
  | .returned .. => "ReturnStatement"
  | .variable _ => "VariableDefinition"
  | .recovery _ => "RecoveryNode"
  | .block _ => "StatementBlock"
  | .parameter _ => "Parameter"
  | .parameterList _ => "ParameterList"
  | .function _ => "FunctionDeclaration"
  | .module _ => "ModuleDeclaration"
  | .root _ => "ModuleRoot"

end FrontEnd
