/-
This file lists the nodes of a tree from below, each after its children. It is the order in which a
tree can be put together.
-/

import FrontEnd.Proofs.Tree.Nesting

namespace FrontEnd

namespace Node

/-- The nodes of a tree do not depend on how deep it stands. -/
theorem map_nodes (node : Node) (depth depth' : Nat) :
    (node.nodes depth).map Prod.snd = (node.nodes depth').map Prod.snd := by
  generalize bound : (node.nodes depth).length = count
  induction count using Nat.strong_induction_on generalizing node depth depth' with
  | h count inductionHypothesis =>
      rw [nodes_eq, nodes_eq node depth']
      simp only [List.map_cons, List.map_flatMap]
      have same : ∀ child ∈ node.children, (child.nodes (depth + 1)).map Prod.snd =
          (child.nodes (depth' + 1)).map Prod.snd := fun child isChild =>
        inductionHypothesis _ (bound ▸ length_nodes_lt isChild depth) child _ _ rfl
      rw [List.flatMap_congr same]

/-- The nodes of a tree, each before its children. -/
def preorder (node : Node) : List Node := (node.nodes 0).map Prod.snd

/-- A node stands before its children and all that is below them. -/
theorem preorder_eq (node : Node) :
    node.preorder = node :: node.children.flatMap preorder := by
  rw [preorder, nodes_eq, List.map_cons, List.map_flatMap]
  exact congrArg (node :: ·) (List.flatMap_congr fun child _ => child.map_nodes _ _)

/-- A child has fewer nodes than its parent, on which the induction over trees rests. -/
theorem length_preorder_lt {node child : Node} (isChild : child ∈ node.children) :
    child.preorder.length < node.preorder.length := by
  have fewer := length_nodes_lt isChild 0
  rw [preorder, ← child.map_nodes 1, List.length_map, preorder, List.length_map]
  exact fewer

/-- The nodes of a tree, each after its children. -/
def postorder (node : Node) : List Node :=
  node.children.attach.flatMap (fun child => child.1.postorder) ++ [node]
termination_by node.preorder.length
decreasing_by exact length_preorder_lt child.2

/-- A node stands behind its children and all that is below them. -/
theorem postorder_eq (node : Node) :
    node.postorder = node.children.flatMap postorder ++ [node] := by
  rw [postorder]
  congr 1
  simp

/-- Both orders list every node of a tree once. -/
theorem postorder_perm (node : Node) : node.postorder.Perm node.preorder := by
  induction node using postorder.induct with
  | case1 node inductionHypothesis =>
      rw [postorder_eq, preorder_eq]
      refine List.perm_append_comm.trans (.cons node ?_)
      exact List.Perm.flatMap_left _ fun child isChild => inductionHypothesis ⟨child, isChild⟩

end Node

end FrontEnd
