/-
This file names the children of every node. The tokens of a node stand from its first to its last
one, and those of its children are among them, child by child.
-/

import FrontEnd.Proofs.Tree.Slots
import FrontEnd.Tree.Extent

namespace FrontEnd

/-- The parts of an expression that are nodes, in order. -/
def Expression.children : Expression → List Node
  | .identifier _ | .boolean .. | .number .. | .string .. => []
  | .binary left _ _ right => [.expression left, .expression right]
  | .prefixed _ _ operand | .postfixed operand _ _ => [.expression operand]
  | .call receiver arguments _ => .expression receiver :: arguments.map .expression
  | .property receiver name => [.expression receiver, name.node]
  | .group _ content _ => [.expression content]
  | .conditional _ condition consequent alternative =>
      [.expression condition, .expression consequent, .expression alternative]

/-- The name of a variable or a parameter, with its type and its value where it has them. -/
def childrenOfBinding (name : Identifier) (type : Option Identifier) (value : Option Expression) :
    List Node :=
  name.node :: (type.toList.map Identifier.node ++ value.toList.map .expression)

/-- The parts of a function that are nodes, in order. -/
def FunctionDeclaration.children (declared : FunctionDeclaration) : List Node :=
  declared.name.node :: .parameterList declared.parameters ::
    (declared.result.toList.map Identifier.node ++ declared.body.toList.map .block)

/-- The nodes directly below a node, in the order of the source. -/
def Node.children : Node → List Node
  | .expression value => value.children
  | .returned _ value => [.expression value]
  | .variable definition =>
      childrenOfBinding definition.name definition.type definition.value
  | .recovery _ => []
  | .block body => body.statements.map Statement.node
  | .parameter declared => childrenOfBinding declared.name declared.type declared.default
  | .parameterList list => list.parameters.map .parameter
  | .function declared => declared.children
  | .module body => body.declarations.map Declaration.node
  | .root whole => whole.modules.map .module

/-- A statement has the nodes of its own node. -/
theorem Statement.nodes_node (statement : Statement) (depth : Nat) :
    statement.node.nodes depth = statement.nodes depth := by
  cases statement <;> rfl

/-- A declaration has the nodes of its own node. -/
theorem Declaration.nodes_node (declaration : Declaration) (depth : Nat) :
    declaration.node.nodes depth = declaration.nodes depth := by
  cases declaration <;> rfl

/-- The nodes of a tree are its root and the nodes of the children, one level deeper. -/
theorem Node.nodes_eq (node : Node) (depth : Nat) :
    node.nodes depth = (depth, node) :: node.children.flatMap (Node.nodes (depth + 1)) := by
  have binding (name : Identifier) (type : Option Identifier) (value : Option Expression) :
      nodesOfBinding (depth + 1) name type value =
        (childrenOfBinding name type value).flatMap (Node.nodes (depth + 1)) := by
    cases type <;> cases value <;> rfl
  cases node with
  | expression value =>
      cases value with
      | call receiver arguments close =>
          simp only [nodes, Expression.nodes, Expression.nodesOfAll_eq_flatMap, children,
            Expression.children, List.flatMap_cons, List.flatMap_map]
      | binary | conditional =>
          simp [nodes, Expression.nodes, children, Expression.children]
      | prefixed | postfixed | group => exact congrArg (_ :: ·) (List.append_nil _).symm
      | identifier | boolean | number | string | property => rfl
  | returned keyword value => exact congrArg (_ :: ·) (List.append_nil _).symm
  | «variable» definition => exact congrArg (_ :: ·) (binding _ _ _)
  | recovery token => rfl
  | block body =>
      show body.nodes depth = _
      simp only [Block.nodes, children, List.flatMap_map, Statement.nodes_node]
  | parameter declared => exact congrArg (_ :: ·) (binding _ _ _)
  | parameterList list =>
      show list.nodes depth = _
      simp only [ParameterList.nodes, children, List.flatMap_map, nodes]
  | function declared =>
      obtain ⟨keyword, name, parameters, result, body⟩ := declared
      cases result <;> cases body <;>
        simp [nodes, FunctionDeclaration.nodes, children, FunctionDeclaration.children,
          Identifier.nodes, Identifier.node, Expression.nodes]
  | module body =>
      show body.nodes depth = _
      simp only [Module.nodes, children, List.flatMap_map, Declaration.nodes_node]
  | root whole =>
      show whole.nodes depth = _
      simp only [Root.nodes, children, List.flatMap_map, nodes]

/-- A child has fewer nodes than its parent, whatever their sorts are. -/
theorem Node.length_nodes_lt {node child : Node} (isChild : child ∈ node.children) (depth : Nat) :
    (child.nodes (depth + 1)).length < (node.nodes depth).length := by
  obtain ⟨front, rest, children⟩ := List.append_of_mem isChild
  rw [nodes_eq node, children]
  simp only [List.flatMap_append, List.flatMap_cons, List.length_cons, List.length_append]
  omega

/-- What every node hands down to its children holds for all nodes of a tree. -/
theorem Node.forall_nodes {motive : Node → Prop}
    (handsDown : ∀ node, motive node → ∀ child ∈ node.children, motive child) {node : Node}
    (holds : motive node) (depth : Nat) : ∀ inner ∈ node.nodes depth, motive inner.2 := by
  generalize bound : (node.nodes depth).length = count
  induction count using Nat.strong_induction_on generalizing node depth with
  | h count inductionHypothesis =>
      rw [nodes_eq]
      refine List.forall_mem_cons.2 ⟨holds, fun inner member => ?_⟩
      obtain ⟨child, isChild, inside⟩ := List.mem_flatMap.1 member
      have fewer := length_nodes_lt isChild depth
      exact inductionHypothesis _ (bound ▸ fewer) (handsDown node holds child isChild) (depth + 1)
        rfl inner inside

/-- The places of a module, of which the boundary is one only when nothing else is there. -/
def Module.extent (module : Module) : List Slot :=
  if module.declarations = [] then [⟨none, module.boundary⟩]
  else module.declarations.flatMap Declaration.slots

/-- A module lies in its places. -/
theorem Module.extent_sublist (module : Module) : module.extent.Sublist module.slots := by
  unfold extent
  split
  · exact (List.nil_sublist _).cons_cons _
  · exact List.sublist_cons_self _ _

/-- The places of a node from its first to its last token, in the order of the source. -/
def Node.extent : Node → List Slot
  | .module body => body.extent
  | .root whole => whole.modules.flatMap Module.extent ++ [⟨none, whole.marker⟩]
  | node => node.slots

/-- A token stands in the first one of some places. -/
def BeginsWith (slots : List Slot) (token : Token) : Prop :=
  ∃ code rest, slots = ⟨code, token⟩ :: rest

/-- A token stands in the last one of some places. -/
def EndsWith (slots : List Slot) (token : Token) : Prop :=
  ∃ code front, slots = front ++ [⟨code, token⟩]

theorem beginsWith_cons (slot : Slot) (rest : List Slot) : BeginsWith (slot :: rest) slot.token :=
  ⟨slot.code, rest, rfl⟩

theorem endsWith_concat (front : List Slot) (slot : Slot) : EndsWith (front ++ [slot]) slot.token :=
  ⟨slot.code, front, rfl⟩

section Ends

variable {slots : List Slot} {token : Token}

/-- What begins with a token still does with more behind it. -/
theorem BeginsWith.append (begins : BeginsWith slots token) (rest : List Slot) :
    BeginsWith (slots ++ rest) token := by
  obtain ⟨code, inner, rfl⟩ := begins
  exact ⟨code, inner ++ rest, rfl⟩

/-- What ends with a token still does with more before it. -/
theorem EndsWith.append (ends : EndsWith slots token) (front : List Slot) :
    EndsWith (front ++ slots) token := by
  obtain ⟨code, inner, rfl⟩ := ends
  exact ⟨code, front ++ inner, (List.append_assoc _ _ _).symm⟩

theorem EndsWith.cons (ends : EndsWith slots token) (slot : Slot) :
    EndsWith (slot :: slots) token :=
  ends.append [slot]

end Ends

/-- The only place of a name is its first. -/
theorem Identifier.beginsWith (name : Identifier) : BeginsWith name.slots name.token :=
  beginsWith_cons _ _

theorem Identifier.endsWith (name : Identifier) : EndsWith name.slots name.token :=
  endsWith_concat [] _

/-- By induction, the places of an expression begin with its first token. -/
theorem Expression.beginsWith (value : Expression) : BeginsWith value.slots value.first := by
  induction value with
  | identifier name => exact name.beginsWith
  | boolean | number | string | prefixed | group | conditional => exact beginsWith_cons _ _
  | binary left operation token right leftBegins => exact leftBegins.append _
  | postfixed operand operation token begins => exact begins.append _
  | call receiver arguments close begins => exact begins.append _
  | property receiver name begins => exact begins.append _

/-- The places of an expression end with its last token. -/
theorem Expression.endsWith (value : Expression) : EndsWith value.slots value.last := by
  induction value with
  | identifier name => exact name.endsWith
  | boolean | number | string => exact endsWith_concat [] _
  | binary left operation token right _ rightEnds => exact (rightEnds.cons _).append _
  | prefixed operation token operand ends => exact ends.cons _
  | postfixed operand operation token => exact endsWith_concat _ _
  | call receiver arguments close => exact (endsWith_concat _ ⟨_, close⟩).append _
  | property receiver name => exact name.endsWith.append _
  | group opening content close => exact (endsWith_concat _ ⟨_, close⟩).cons _
  | conditional keyword condition consequent alternative _ _ ends =>
      exact ((ends.append _).append _).cons _

/-- A variable or a parameter ends with its value, or its type, or its name. -/
theorem endsWith_binding (name : Identifier) (type : Option Identifier)
    (value : Option Expression) :
    EndsWith (slotsOfBinding name type value) (lastOfBinding name type value) := by
  rcases value with _ | value
  · rw [slotsOfBinding, Option.toList_none, List.flatMap_nil, List.append_nil]
    rcases type with _ | type
    · exact endsWith_concat [] _
    · exact endsWith_concat name.slots _
  · rw [slotsOfBinding, Option.toList_some, List.flatMap_singleton]
    exact value.endsWith.append _

theorem Variable.endsWith (definition : Variable) : EndsWith definition.slots definition.last :=
  (endsWith_binding _ _ _).cons _

/-- A function ends with its body, or its result, or its parameters. -/
theorem FunctionDeclaration.endsWith (declared : FunctionDeclaration) :
    EndsWith declared.slots declared.last := by
  obtain ⟨keyword, name, parameters, result, body⟩ := declared
  have parametersEnd : EndsWith parameters.slots parameters.close :=
    (endsWith_concat _ ⟨_, parameters.close⟩).cons _
  apply EndsWith.cons
  rcases body with _ | body
  · rw [Option.toList_none, List.flatMap_nil, List.append_nil]
    rcases result with _ | result
    · rw [Option.toList_none, List.flatMap_nil, List.append_nil]
      exact parametersEnd.append _
    · exact result.endsWith.append _
  · rw [Option.toList_some, List.flatMap_singleton]
    exact ((endsWith_concat _ ⟨_, body.close⟩).cons _).append _

theorem Declaration.beginsWith (declaration : Declaration) :
    BeginsWith declaration.slots declaration.first := by
  cases declaration <;> exact beginsWith_cons _ _

theorem Declaration.endsWith (declaration : Declaration) :
    EndsWith declaration.slots declaration.last := by
  cases declaration with
  | function declared => exact declared.endsWith
  | «variable» definition => exact definition.endsWith

/-- A module begins with its first declaration, or its boundary where it has none. -/
theorem Module.beginsWith (module : Module) : BeginsWith module.extent module.first := by
  obtain ⟨declarations, boundary⟩ := module
  rcases declarations with _ | ⟨first, rest⟩
  · exact beginsWith_cons _ _
  · rw [extent, if_neg (List.cons_ne_nil _ _), List.flatMap_cons]
    exact first.beginsWith.append _

/-- A module ends with its last declaration, or its boundary where it has none. -/
theorem Module.endsWith (module : Module) : EndsWith module.extent module.last := by
  obtain ⟨declarations, boundary⟩ := module
  rcases List.eq_nil_or_concat declarations with rfl | ⟨front, last, rfl⟩
  · exact endsWith_concat [] _
  · rw [List.concat_eq_append, extent, if_neg (by simp), List.flatMap_append,
      List.flatMap_singleton, Module.last, List.getLast?_concat]
    exact last.endsWith.append _

/-- The places of a node begin with its first token. -/
theorem Node.beginsWith (node : Node) : BeginsWith node.extent node.first := by
  cases node with
  | expression value => exact value.beginsWith
  | parameter declared => exact beginsWith_cons _ _
  | module body => exact body.beginsWith
  | root whole =>
      obtain ⟨modules, marker⟩ := whole
      rcases modules with _ | ⟨first, rest⟩
      · exact beginsWith_cons _ _
      · rw [extent, List.flatMap_cons]
        exact (first.beginsWith.append _).append _
  | returned | «variable» | recovery | block | parameterList | function => exact beginsWith_cons _ _

/-- The places of a node end with its last token. -/
theorem Node.endsWith (node : Node) : EndsWith node.extent node.last := by
  cases node with
  | expression value => exact value.endsWith
  | returned keyword value => exact value.endsWith.cons _
  | «variable» definition => exact definition.endsWith
  | recovery token => exact endsWith_concat [] _
  | block body => exact (endsWith_concat _ ⟨_, body.close⟩).cons _
  | parameter declared => exact endsWith_binding _ _ _
  | parameterList list => exact (endsWith_concat _ ⟨_, list.close⟩).cons _
  | function declared => exact declared.endsWith
  | module body => exact body.endsWith
  | root whole => exact endsWith_concat _ _

theorem Statement.node_extent (statement : Statement) :
    statement.node.extent = statement.slots := by
  cases statement <;> rfl

theorem Declaration.node_extent (declaration : Declaration) :
    declaration.node.extent = declaration.slots := by
  cases declaration <;> rfl

/-- The parts of a variable or a parameter fill its places behind its keyword. -/
theorem childrenOfBinding_extent (name : Identifier) (type : Option Identifier)
    (value : Option Expression) :
    (childrenOfBinding name type value).flatMap Node.extent = slotsOfBinding name type value := by
  cases type <;> cases value <;>
    simp [childrenOfBinding, slotsOfBinding, Node.extent, Node.slots, Identifier.node,
      Expression.slots]

/-- The parts of an expression lie in its places, in order and apart. -/
theorem Expression.children_extent (value : Expression) :
    (value.children.flatMap Node.extent).Sublist value.slots := by
  cases value with
  | identifier | boolean | number | string => exact List.nil_sublist _
  | binary left operation token right =>
      show (left.slots ++ (right.slots ++ [])).Sublist (left.slots ++ _ :: right.slots)
      rw [List.append_nil]
      exact (List.sublist_cons_self _ _).append_left _
  | prefixed operation token operand =>
      show (operand.slots ++ []).Sublist (_ :: operand.slots)
      rw [List.append_nil]
      exact List.sublist_cons_self _ _
  | postfixed operand operation token =>
      show (operand.slots ++ []).Sublist (operand.slots ++ _)
      exact (List.nil_sublist _).append_left _
  | call receiver arguments close =>
      have argumentsExtent : (arguments.map Node.expression).flatMap Node.extent =
          arguments.flatMap Expression.slots := List.flatMap_map ..
      show (receiver.slots ++ (arguments.map Node.expression).flatMap Node.extent).Sublist
        (receiver.slots ++ (Expression.slotsOfAll arguments ++ _))
      rw [argumentsExtent, Expression.slotsOfAll_eq_flatMap]
      exact (List.sublist_append_left _ _).append_left _
  | property receiver name =>
      show (receiver.slots ++ (name.slots ++ [])).Sublist (receiver.slots ++ name.slots)
      rw [List.append_nil]
  | group opening content close =>
      show (content.slots ++ []).Sublist (_ :: (content.slots ++ _))
      exact ((List.nil_sublist _).append_left _).cons _
  | conditional keyword condition consequent alternative =>
      show (condition.slots ++ (consequent.slots ++ (alternative.slots ++ []))).Sublist
        (_ :: (condition.slots ++ (consequent.slots ++ alternative.slots)))
      rw [List.append_nil]
      exact List.sublist_cons_self _ _

/-- The places of the children are among those of a node, child by child. -/
theorem Node.children_extent (node : Node) :
    (node.children.flatMap Node.extent).Sublist node.extent := by
  cases node with
  | expression value => exact value.children_extent
  | returned keyword value =>
      show (value.slots ++ []).Sublist (_ :: value.slots)
      rw [List.append_nil]
      exact List.sublist_cons_self _ _
  | «variable» definition =>
      rw [children, childrenOfBinding_extent]
      exact List.sublist_cons_self _ _
  | recovery => exact List.nil_sublist _
  | block body =>
      rw [children, List.flatMap_map]
      simp only [Statement.node_extent]
      exact (List.sublist_append_left _ _).cons _
  | parameter declared =>
      rw [children, childrenOfBinding_extent]
      exact .refl _
  | parameterList list =>
      rw [children, List.flatMap_map]
      exact (List.sublist_append_left _ _).cons _
  | function declared =>
      obtain ⟨keyword, name, parameters, result, body⟩ := declared
      apply List.Sublist.cons
      cases result <;> cases body <;>
        simp [children, FunctionDeclaration.children, extent, slots, Identifier.node,
          Expression.slots]
  | module body =>
      rw [children, List.flatMap_map]
      simp only [Declaration.node_extent]
      rw [extent, Module.extent]
      split
      · rename_i none
        rw [none]
        exact List.nil_sublist _
      · exact .refl _
  | root whole =>
      rw [children, List.flatMap_map]
      exact List.sublist_append_left _ _

end FrontEnd
