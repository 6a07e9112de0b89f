/-
This file lists and prints the nodes of relocated trees. Neither the canonical text nor the outline
shows an offset, but for the outline of a statement that was of no use.
-/

import FrontEnd.Proofs.Tree.Relocation
import FrontEnd.Proofs.Tree.Reprinting

namespace FrontEnd

/-- Whether no node stands for a token that starts no statement. -/
def WithoutRecovery (nodes : List Leveled) : Prop :=
  ∀ entry ∈ nodes, ∀ token, entry.2 ≠ .recovery token

section WithoutRecovery

variable {entry : Leveled} {nodes : List Leveled}

@[simp] theorem withoutRecovery_cons :
    WithoutRecovery (entry :: nodes) ↔
      (∀ token, entry.2 ≠ .recovery token) ∧ WithoutRecovery nodes :=
  List.forall_mem_cons

@[simp] theorem withoutRecovery_append {first second : List Leveled} :
    WithoutRecovery (first ++ second) ↔ WithoutRecovery first ∧ WithoutRecovery second :=
  List.forall_mem_append

@[simp] theorem withoutRecovery_flatMap {α : Type} {values : List α}
    {nodes : α → List Leveled} :
    WithoutRecovery (values.flatMap nodes) ↔ ∀ value ∈ values, WithoutRecovery (nodes value) :=
  List.forall_mem_flatMap

end WithoutRecovery

variable (move : Nat → Nat)

/-- An optional part that is moved looks as before when every such part does. -/
theorem flatMap_relocate {α β : Type} {view : α → List β} {relocate : α → α} {value : Option α}
    (same : ∀ value, view (relocate value) = view value) :
    (value.map relocate).toList.flatMap view = value.toList.flatMap view := by
  cases value with
  | none => rfl
  | some value => simp [same]

/-- Values that are moved look as before when each of them does. -/
theorem map_relocate {α β : Type} {view : α → β} {relocate : α → α} {values : List α}
    (same : ∀ value ∈ values, view (relocate value) = view value) :
    (values.map relocate).map view = values.map view := by
  rw [List.map_map]
  exact List.map_congr_left same

/-- A node that is moved stays on its level. -/
def Leveled.relocate (entry : Leveled) : Leveled := (entry.1, entry.2.relocate move)

/-- The nodes of moved parts are the moved nodes when this holds of each part. -/
theorem flatMap_nodes_relocate {α : Type} {nodes : α → List Leveled} {relocate : α → α}
    {values : List α}
    (same : ∀ value ∈ values,
      nodes (relocate value) = (nodes value).map (Leveled.relocate move)) :
    (values.map relocate).flatMap nodes =
      (values.flatMap nodes).map (Leveled.relocate move) := by
  rw [List.flatMap_map, List.map_flatMap]
  exact List.flatMap_congr same

section Nodes

variable (depth : Nat)

theorem Identifier.relocate_nodes (name : Identifier) :
    (name.relocate move).nodes depth = (name.nodes depth).map (Leveled.relocate move) := rfl

/-- By induction, the parts of a moved expression are the moved parts. -/
theorem Expression.relocate_nodes (value : Expression) :
    (value.relocate move).nodes depth = (value.nodes depth).map (Leveled.relocate move) := by
  induction value generalizing depth with
  | call receiver arguments close receiverSame argumentsSame =>
      have all := flatMap_nodes_relocate move fun argument member =>
        argumentsSame argument member (depth + 1)
      simp only [relocate, nodes, relocateAll_eq_map, nodesOfAll_eq_flatMap, receiverSame, all,
        List.map_cons, List.map_append]
      simp [Leveled.relocate, Node.relocate, relocate]
  | identifier name => rfl
  | _ => simp_all [relocate, nodes, Leveled.relocate, Node.relocate, Identifier.relocate_nodes]

/-- A name, a type and a value are moved one by one. -/
theorem nodesOfBinding_relocate (name : Identifier) (type : Option Identifier)
    (value : Option Expression) :
    nodesOfBinding depth (name.relocate move) (type.map (Identifier.relocate move))
        (value.map (Expression.relocate move)) =
      (nodesOfBinding depth name type value).map (Leveled.relocate move) := by
  cases type <;> cases value <;>
    simp [nodesOfBinding, Identifier.relocate_nodes, Expression.relocate_nodes]

theorem Variable.relocate_nodes (definition : Variable) :
    (definition.relocate move).nodes depth =
      (definition.nodes depth).map (Leveled.relocate move) :=
  congrArg (_ :: ·) (nodesOfBinding_relocate move (depth + 1) _ _ _)

/-- A token that starts no statement is moved as a node of its own. -/
theorem Statement.relocate_nodes (statement : Statement) :
    (statement.relocate move).nodes depth =
      (statement.nodes depth).map (Leveled.relocate move) := by
  cases statement with
  | expression value => exact value.relocate_nodes move depth
  | returned keyword value => exact congrArg (_ :: ·) (value.relocate_nodes move (depth + 1))
  | «variable» definition => exact definition.relocate_nodes move depth
  | recovery token => rfl

theorem Block.relocate_nodes (block : Block) :
    (block.relocate move).nodes depth = (block.nodes depth).map (Leveled.relocate move) :=
  congrArg (_ :: ·) (flatMap_nodes_relocate move fun statement _ =>
    statement.relocate_nodes move (depth + 1))

theorem Parameter.relocate_nodes (parameter : Parameter) :
    (parameter.relocate move).nodes depth =
      (parameter.nodes depth).map (Leveled.relocate move) :=
  congrArg (_ :: ·) (nodesOfBinding_relocate move (depth + 1) _ _ _)

theorem ParameterList.relocate_nodes (list : ParameterList) :
    (list.relocate move).nodes depth = (list.nodes depth).map (Leveled.relocate move) :=
  congrArg (_ :: ·) (flatMap_nodes_relocate move fun parameter _ =>
    parameter.relocate_nodes move (depth + 1))

/-- A result and a body that are missing stay missing. -/
theorem FunctionDeclaration.relocate_nodes (declared : FunctionDeclaration) :
    (declared.relocate move).nodes depth =
      (declared.nodes depth).map (Leveled.relocate move) := by
  obtain ⟨keyword, name, parameters, result, body⟩ := declared
  cases result <;> cases body <;>
    simp [relocate, nodes, Leveled.relocate, Node.relocate, Identifier.relocate_nodes,
      ParameterList.relocate_nodes, Block.relocate_nodes]

theorem Declaration.relocate_nodes (declaration : Declaration) :
    (declaration.relocate move).nodes depth =
      (declaration.nodes depth).map (Leveled.relocate move) := by
  cases declaration with
  | function declared => exact declared.relocate_nodes move depth
  | «variable» definition => exact definition.relocate_nodes move depth

/-- The boundary of a module is no node, so its move is not seen. -/
theorem Module.relocate_nodes (module : Module) :
    (module.relocate move).nodes depth = (module.nodes depth).map (Leveled.relocate move) :=
  congrArg (_ :: ·) (flatMap_nodes_relocate move fun declaration _ =>
    declaration.relocate_nodes move (depth + 1))

theorem Root.relocate_nodes (root : Root) :
    (root.relocate move).nodes depth = (root.nodes depth).map (Leveled.relocate move) :=
  congrArg (_ :: ·) (flatMap_nodes_relocate move fun module _ =>
    module.relocate_nodes move (depth + 1))

/-- The nodes of a moved tree are the moved nodes. -/
theorem Node.relocate_nodes (node : Node) :
    (node.relocate move).nodes depth = (node.nodes depth).map (Leveled.relocate move) := by
  cases node with
  | expression value => exact value.relocate_nodes move depth
  | returned keyword value =>
      exact Statement.relocate_nodes move depth (.returned keyword value)
  | «variable» definition => exact definition.relocate_nodes move depth
  | recovery token => rfl
  | block body => exact body.relocate_nodes move depth
  | parameter declared => exact declared.relocate_nodes move depth
  | parameterList list => exact list.relocate_nodes move depth
  | function declared => exact declared.relocate_nodes move depth
  | module body => exact body.relocate_nodes move depth
  | root whole => exact whole.relocate_nodes move depth

/-- Moving a tree neither adds nor removes a statement that was of no use. -/
theorem Node.withoutRecovery_relocate (node : Node) :
    WithoutRecovery ((node.relocate move).nodes depth) ↔ WithoutRecovery (node.nodes depth) := by
  have kept : ∀ entry : Leveled, (∀ token, (entry.relocate move).2 ≠ .recovery token) ↔
      ∀ token, entry.2 ≠ .recovery token := by
    rintro ⟨level, entry⟩
    cases entry <;> simp [Leveled.relocate, relocate]
  rw [relocate_nodes, WithoutRecovery, List.forall_mem_map]
  exact forall₂_congr fun entry _ => kept entry

end Nodes

@[simp] theorem Identifier.relocate_format (name : Identifier) :
    (name.relocate move).format = name.format := rfl

/-- A moved expression begins with the moved token. -/
@[simp] theorem Expression.relocate_first (value : Expression) :
    (value.relocate move).first = value.first.relocate move := by
  induction value <;> simp_all [relocate, first, Identifier.relocate]

/-- By induction, the canonical text of an expression has nothing of its offsets. -/
@[simp] theorem Expression.relocate_format (value : Expression) :
    (value.relocate move).format = value.format := by
  induction value with
  | call receiver arguments close receiverSame argumentsSame =>
      rw [relocate, format, format, receiverSame, relocateAll_eq_map, formatAll_eq_map,
        formatAll_eq_map, map_relocate argumentsSame]
  | prefixed operation token operand operandSame =>
      simp only [relocate, format, operandSame, prefixSteps, relocate_first,
        Token.relocate_lexeme]
  | _ => simp_all [relocate, format]

/-- The canonical text of a name, a type and a value has nothing of their offsets. -/
theorem formatBinding_relocate (name : Identifier) (type : Option Identifier)
    (value : Option Expression) :
    formatBinding (name.relocate move) (type.map (Identifier.relocate move))
      (value.map (Expression.relocate move)) = formatBinding name type value := by
  rw [formatBinding, flatMap_relocate fun type => by rw [type.relocate_format],
    flatMap_relocate fun value => by rw [value.relocate_format]]
  rfl

theorem Variable.relocate_format (definition : Variable) :
    (definition.relocate move).format = definition.format :=
  congrArg (Layout.Step.write "let " :: ·) (formatBinding_relocate move _ _ _)

@[simp] theorem Statement.relocate_format (statement : Statement) :
    (statement.relocate move).format = statement.format := by
  cases statement with
  | expression value => exact value.relocate_format move
  | returned keyword value => exact congrArg (_ :: ·) (value.relocate_format move)
  | «variable» definition => exact definition.relocate_format move
  | recovery token => rfl

@[simp] theorem Block.relocate_format (block : Block) :
    (block.relocate move).format = block.format := by
  simp [format, relocate, List.flatMap_map]

theorem Parameter.relocate_format (parameter : Parameter) :
    (parameter.relocate move).format = parameter.format :=
  formatBinding_relocate move _ _ _

@[simp] theorem ParameterList.relocate_format (list : ParameterList) :
    (list.relocate move).format = list.format := by
  rw [format, relocate, map_relocate fun parameter _ => parameter.relocate_format move]
  rfl

@[simp] theorem FunctionDeclaration.relocate_format (declared : FunctionDeclaration) :
    (declared.relocate move).format = declared.format := by
  rw [format, relocate, flatMap_relocate fun result => by rw [result.relocate_format],
    flatMap_relocate fun body => by rw [body.relocate_format]]
  simp only [Identifier.relocate_format, ParameterList.relocate_format, format]

theorem Declaration.relocate_format (declaration : Declaration) :
    (declaration.relocate move).format = declaration.format := by
  cases declaration with
  | function declared => exact declared.relocate_format move
  | «variable» definition => exact definition.relocate_format move

theorem Module.relocate_format (module : Module) :
    (module.relocate move).format = module.format := by
  rw [format, relocate, map_relocate fun declaration _ => declaration.relocate_format move]
  rfl

/-- The canonical text of a file has nothing of its offsets. -/
theorem Root.relocate_format (root : Root) : (root.relocate move).format = root.format := by
  rw [format, relocate, map_relocate fun module _ => module.relocate_format move]
  rfl

/-- The canonical text of a node shows no offset. -/
theorem Node.relocate_format (node : Node) : (node.relocate move).format = node.format := by
  have steps : (node.relocate move).formatSteps = node.formatSteps := by
    cases node with
    | expression value => exact value.relocate_format move
    | returned keyword value => exact Statement.relocate_format move (.returned keyword value)
    | «variable» definition => exact definition.relocate_format move
    | recovery token => rfl
    | block body => exact body.relocate_format move
    | parameter declared => exact declared.relocate_format move
    | parameterList list => exact list.relocate_format move
    | function declared => exact declared.relocate_format move
    | module body => exact body.relocate_format move
    | root whole => exact whole.relocate_format move
  rw [format, format, steps]

@[simp] theorem Identifier.relocate_outline (name : Identifier) :
    (name.relocate move).outline = name.outline := rfl

/-- By induction, the outline of an expression has nothing of its offsets. -/
@[simp] theorem Expression.relocate_outline (value : Expression) :
    (value.relocate move).outline = value.outline := by
  induction value with
  | call receiver arguments close receiverSame argumentsSame =>
      rw [relocate, outline, outline, receiverSame, relocateAll_eq_map, outlineAll_eq_map,
        outlineAll_eq_map, map_relocate argumentsSame]
  | _ => simp_all [relocate, outline]

theorem Variable.relocate_outline (definition : Variable) :
    (definition.relocate move).outline = definition.outline := by
  simp [outline, relocate, Function.comp_def]

theorem Parameter.relocate_outline (parameter : Parameter) :
    (parameter.relocate move).outline = parameter.outline := by
  simp [outline, relocate, Function.comp_def]

theorem ParameterList.relocate_outline (list : ParameterList) :
    (list.relocate move).outline = list.outline := by
  rw [outline, relocate, map_relocate fun parameter _ => parameter.relocate_outline move]
  rfl

section Outlines

variable {move} {depth : Nat}

/-- Only the outline of a token that starts no statement shows where it stands. -/
theorem Statement.relocate_outline {statement : Statement}
    (free : WithoutRecovery (statement.nodes depth)) :
    (statement.relocate move).outline = statement.outline := by
  cases statement with
  | expression value => exact value.relocate_outline move
  | returned keyword value => simp [relocate, outline]
  | «variable» definition => exact definition.relocate_outline move
  | recovery token => exact absurd rfl (free _ List.mem_cons_self token)

/-- A block is drawn alike wherever it stands when all its statements are. -/
theorem Block.relocate_outline {block : Block} (free : WithoutRecovery (block.nodes depth)) :
    (block.relocate move).outline = block.outline := by
  have inside := withoutRecovery_flatMap.1 (withoutRecovery_cons.1 free).2
  rw [outline, relocate,
    map_relocate fun statement member => Statement.relocate_outline (inside statement member)]
  rfl

/-- Only the body of a function can show where it stands. -/
theorem FunctionDeclaration.relocate_outline {declared : FunctionDeclaration}
    (free : WithoutRecovery (declared.nodes depth)) :
    (declared.relocate move).outline = declared.outline := by
  obtain ⟨keyword, name, parameters, result, body⟩ := declared
  simp only [nodes, withoutRecovery_cons, withoutRecovery_append, withoutRecovery_flatMap] at free
  have bodies : ∀ block ∈ body, (block.relocate move).outline = block.outline :=
    fun block member => Block.relocate_outline (free.2.2 block (by simpa using member))
  simp only [outline, relocate, Identifier.relocate_outline, Option.map_map,
    Function.comp_def, ParameterList.relocate_outline]
  cases body with
  | none => rfl
  | some block => rw [Option.map_some, Option.map_some, bodies block rfl]

theorem Declaration.relocate_outline {declaration : Declaration}
    (free : WithoutRecovery (declaration.nodes depth)) :
    (declaration.relocate move).outline = declaration.outline := by
  cases declaration with
  | function declared => exact FunctionDeclaration.relocate_outline free
  | «variable» definition => exact definition.relocate_outline move

theorem Module.relocate_outline {module : Module} (free : WithoutRecovery (module.nodes depth)) :
    (module.relocate move).outline = module.outline := by
  have inside := withoutRecovery_flatMap.1 (withoutRecovery_cons.1 free).2
  rw [outline, relocate, map_relocate fun declaration member =>
    Declaration.relocate_outline (inside declaration member)]
  rfl

/-- A file is drawn alike wherever it stands when nothing in it shows its offset. -/
theorem Root.relocate_outline {root : Root} (free : WithoutRecovery (root.nodes depth)) :
    (root.relocate move).outline = root.outline := by
  have inside := withoutRecovery_flatMap.1 (withoutRecovery_cons.1 free).2
  rw [outline, relocate,
    map_relocate fun module member => Module.relocate_outline (inside module member)]
  rfl

/-- The outline of a node shows only the offsets of tokens that start no statement. -/
theorem Node.relocate_outline {node : Node} (free : WithoutRecovery (node.nodes depth)) :
    (node.relocate move).outline = node.outline := by
  have steps : (node.relocate move).outlineSteps = node.outlineSteps := by
    cases node with
    | expression value => exact value.relocate_outline move
    | returned keyword value =>
        have same : ((Statement.returned keyword value).relocate move).outline =
            (Statement.returned keyword value).outline := Statement.relocate_outline free
        exact same
    | «variable» definition => exact definition.relocate_outline move
    | recovery token => exact absurd rfl (free _ List.mem_cons_self token)
    | block body => exact Block.relocate_outline free
    | parameter declared => exact declared.relocate_outline move
    | parameterList list => exact list.relocate_outline move
    | function declared => exact FunctionDeclaration.relocate_outline free
    | module body => exact Module.relocate_outline free
    | root whole => exact Root.relocate_outline free
  rw [outline, outline, steps]

end Outlines

end FrontEnd
