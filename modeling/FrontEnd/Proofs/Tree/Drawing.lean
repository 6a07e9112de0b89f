/-
This file shows that the outline of a tree draws its sketch, when the names and the literals of the
tree come from the tokens of a text. Then no line holds a line feed.
-/

import FrontEnd.Proofs.Excerpt
import FrontEnd.Proofs.Tree.Bare
import FrontEnd.Proofs.Tree.Reprinting

namespace FrontEnd

/-- All names and literals of a tree hold what their tokens say. -/
def Node.Sound (node : Node) : Prop := ∀ inner ∈ node.preorder, inner.Decoded

/-- A tree is sound when its root is and all its subtrees are. -/
theorem Node.sound_iff {node : Node} :
    node.Sound ↔ node.Decoded ∧ ∀ child ∈ node.children, child.Sound := by
  rw [Sound, preorder_eq, List.forall_mem_cons]
  refine and_congr_right fun _ => ?_
  simp only [Sound, List.mem_flatMap]
  constructor
  · exact fun all child isChild inner inside => all inner ⟨child, isChild, inside⟩
  · rintro all inner ⟨child, isChild, inside⟩
    exact all child isChild inner inside

theorem Node.Sound.decoded {node : Node} (sound : node.Sound) : node.Decoded :=
  (sound_iff.1 sound).1

/-- The subtrees of a sound tree are sound. -/
theorem Node.Sound.children {node : Node} (sound : node.Sound) :
    ∀ child ∈ node.children, child.Sound :=
  (sound_iff.1 sound).2

section Bindings

variable {name : Identifier} {type : Option Identifier} {value : Option Expression}

/-- The parts of a variable or of a parameter. -/
theorem forall_childrenOfBinding
    (sound : ∀ child ∈ childrenOfBinding name type value, child.Sound) :
    name.node.Sound ∧ (∀ inner ∈ type, inner.node.Sound) ∧
      ∀ inner ∈ value, (Node.expression inner).Sound := by
  refine ⟨sound _ (List.mem_cons_self ..), fun inner found => ?_, fun inner found => ?_⟩
  · exact sound _ (by simp [childrenOfBinding, Option.mem_def.1 found])
  · exact sound _ (by simp [childrenOfBinding, Option.mem_def.1 found])

end Bindings

/-- A name, also one that was put in, stands on one line. -/
theorem Identifier.noFeed {name : Identifier} (sound : name.node.Sound) :
    '\n' ∉ name.token.lexeme.toList := by
  rcases sound.decoded with ⟨well, kind⟩ | ⟨-, placeholder⟩
  · exact (Identifier.isWord kind well.spelled).1.noFeed
  · rw [placeholder]
    decide

/-- The name of an operation stands on one line. -/
theorem Operation.name_noFeed (operation : Operation) : '\n' ∉ operation.name.toList := by
  cases operation <;> decide

/-- No two operations have the same name. -/
theorem Operation.name_injective {operation operation' : Operation}
    (same : operation.name = operation'.name) : operation = operation' := by
  have all : ∀ operation : Operation, operation ∈ Operation.all := by
    intro operation
    cases operation <;> decide
  exact List.inj_on_of_nodup_map (by decide) (all _) (all _) same

/-- The print of a number of a text is a line that gives its value back. -/
theorem Expression.number_print {token : Token} {value : Binary64}
    (sound : (Node.expression (.number token value)).Sound) :
    '\n' ∉ value.print.toList ∧ Binary64.read? value.print = some value := by
  obtain ⟨well, kind, read⟩ := sound.decoded
  have numeral := well.spelled
  rw [kind] at numeral
  rcases Binary64.print_isNumeral numeral read with rfl | ⟨printed, found⟩
  · decide
  · exact ⟨printed.noFeed, found⟩

theorem noFeed_toString (number : Nat) : '\n' ∉ (toString number).toList := by
  change '\n' ∉ number.repr.toList
  rw [Nat.toList_repr]
  exact noFeed_toDigits number

/-- The outline of a name draws its sketch. -/
theorem Identifier.drawn {name : Identifier} (sound : name.node.Sound) :
    Sketch.Drawn name.outline name.sketch := by
  refine ((Sketch.drawn_field (by decide) (noFeed sound)).append ?_).nested (by decide)
  split
  · exact Sketch.drawn_field (by decide) (by decide)
  · exact Sketch.drawn_blank

/-- By induction, the outline of an expression draws its sketch. -/
theorem Expression.drawn {value : Expression} (sound : (Node.expression value).Sound) :
    Sketch.Drawn value.outline value.sketch := by
  induction value with
  | identifier name => exact name.drawn sound
  | boolean token value =>
      refine (Sketch.drawn_field (by decide) ?_).nested (by decide)
      cases value <;> decide
  | number token value =>
      exact (Sketch.drawn_field (by decide) (number_print sound).1).nested (by decide)
  | string token value =>
      exact (Sketch.drawn_field (by decide) (Text.noFeed_quote value)).nested (by decide)
  | binary left operation token right leftHypothesis rightHypothesis =>
      obtain ⟨leftSound, rest⟩ := List.forall_mem_cons.1 sound.children
      obtain ⟨rightSound, -⟩ := List.forall_mem_cons.1 rest
      have sign : Sketch.Drawn _ (Sketch.field "operator" operation.name) :=
        Sketch.drawn_field (by decide) operation.name_noFeed
      exact ((sign.append ((leftHypothesis leftSound).child (by decide))).append
        ((rightHypothesis rightSound).child (by decide))).nested (by decide)
  | prefixed operation token operand inductionHypothesis =>
      obtain ⟨operandSound, -⟩ := List.forall_mem_cons.1 sound.children
      have sign : Sketch.Drawn _ (Sketch.field "operator" operation.name) :=
        Sketch.drawn_field (by decide) operation.name_noFeed
      exact (sign.append ((inductionHypothesis operandSound).child (by decide))).nested (by decide)
  | postfixed operand operation token inductionHypothesis =>
      obtain ⟨operandSound, -⟩ := List.forall_mem_cons.1 sound.children
      have sign : Sketch.Drawn _ (Sketch.field "operator" operation.name) :=
        Sketch.drawn_field (by decide) operation.name_noFeed
      exact (sign.append ((inductionHypothesis operandSound).child (by decide))).nested (by decide)
  | call receiver arguments close receiverHypothesis argumentsHypothesis =>
      obtain ⟨receiverSound, rest⟩ := List.forall_mem_cons.1 sound.children
      have items : Sketch.Drawn _ (Sketch.children "arguments" (arguments.map sketch)) :=
        Sketch.drawn_children (by decide) fun argument member =>
          argumentsHypothesis argument member (rest _ (List.mem_map_of_mem member))
      rw [outline, sketch, outlineAll_eq_map, sketchAll_eq_map]
      exact (((receiverHypothesis receiverSound).child (by decide)).append items).nested (by decide)
  | property receiver name inductionHypothesis =>
      obtain ⟨receiverSound, rest⟩ := List.forall_mem_cons.1 sound.children
      obtain ⟨nameSound, -⟩ := List.forall_mem_cons.1 rest
      exact (((inductionHypothesis receiverSound).child (by decide)).append
        ((Identifier.drawn nameSound).child (by decide))).nested (by decide)
  | group opening content close inductionHypothesis =>
      obtain ⟨contentSound, -⟩ := List.forall_mem_cons.1 sound.children
      exact ((inductionHypothesis contentSound).child (by decide)).nested (by decide)
  | conditional keyword condition consequent alternative conditionHypothesis consequentHypothesis
      alternativeHypothesis =>
      obtain ⟨conditionSound, rest⟩ := List.forall_mem_cons.1 sound.children
      obtain ⟨consequentSound, last⟩ := List.forall_mem_cons.1 rest
      obtain ⟨alternativeSound, -⟩ := List.forall_mem_cons.1 last
      exact ((((conditionHypothesis conditionSound).child (by decide)).append
        ((consequentHypothesis consequentSound).child (by decide))).append
          ((alternativeHypothesis alternativeSound).child (by decide))).nested (by decide)

section Bindings

variable {sort last : String} {name : Identifier} {type : Option Identifier}
  {value : Option Expression}

/-- The outline of a variable or a parameter draws its sketch. -/
theorem drawn_binding (isSort : Sketch.IsLabel sort) (isLast : Sketch.IsLabel last)
    (sound : ∀ child ∈ childrenOfBinding name type value, child.Sound) :
    Sketch.Drawn
      (Outline.node sort (Outline.child "name" name.outline ++
        Outline.optional "type" (type.map Identifier.outline) ++
        Outline.optional last (value.map Expression.outline)))
      (sketchOfBinding sort last name type value) := by
  obtain ⟨nameSound, typeSound, valueSound⟩ := forall_childrenOfBinding sound
  have types : Sketch.Drawn _ (Sketch.optional "type" (type.map Identifier.sketch)) :=
    Sketch.drawn_optional (by decide) fun inner found => Identifier.drawn (typeSound inner found)
  have values : Sketch.Drawn _ (Sketch.optional last (value.map Expression.sketch)) :=
    Sketch.drawn_optional isLast fun inner found => Expression.drawn (valueSound inner found)
  have names : Sketch.Drawn _ (Sketch.child "name" name.sketch) :=
    (Identifier.drawn nameSound).child (by decide)
  exact ((names.append types).append values).nested isSort

end Bindings

/-- The outline of a statement draws its sketch, also for a token that starts none. -/
theorem Statement.drawn {statement : Statement} (sound : statement.node.Sound) :
    Sketch.Drawn statement.outline statement.sketch := by
  cases statement with
  | expression value => exact Expression.drawn sound
  | returned keyword value =>
      obtain ⟨valueSound, -⟩ := List.forall_mem_cons.1 sound.children
      exact ((Expression.drawn valueSound).child (by decide)).nested (by decide)
  | «variable» definition => exact drawn_binding (by decide) (by decide) sound.children
  | recovery token =>
      exact (Sketch.drawn_field (by decide) (noFeed_toString _)).nested (by decide)

theorem Block.drawn {block : Block} (sound : (Node.block block).Sound) :
    Sketch.Drawn block.outline block.sketch :=
  (Sketch.drawn_children (by decide) fun _ member =>
    Statement.drawn (sound.children _ (List.mem_map_of_mem member))).nested (by decide)

theorem Parameter.drawn {parameter : Parameter} (sound : (Node.parameter parameter).Sound) :
    Sketch.Drawn parameter.outline parameter.sketch :=
  drawn_binding (by decide) (by decide) sound.children

theorem ParameterList.drawn {list : ParameterList} (sound : (Node.parameterList list).Sound) :
    Sketch.Drawn list.outline list.sketch :=
  (Sketch.drawn_children (by decide) fun _ member =>
    Parameter.drawn (sound.children _ (List.mem_map_of_mem member))).nested (by decide)

/-- The parts of a function. -/
theorem FunctionDeclaration.forall_children {declared : FunctionDeclaration}
    (sound : (Node.function declared).Sound) :
    declared.name.node.Sound ∧ (Node.parameterList declared.parameters).Sound ∧
      (∀ inner ∈ declared.result, inner.node.Sound) ∧
        ∀ inner ∈ declared.body, (Node.block inner).Sound := by
  obtain ⟨name, rest⟩ := List.forall_mem_cons.1 sound.children
  obtain ⟨parameters, options⟩ := List.forall_mem_cons.1 rest
  refine ⟨name, parameters, fun inner found => ?_, fun inner found => ?_⟩
  · exact options _ (by simp [Option.mem_def.1 found])
  · exact options _ (by simp [Option.mem_def.1 found])

/-- The outline of a function draws its sketch. -/
theorem FunctionDeclaration.drawn {declared : FunctionDeclaration}
    (sound : (Node.function declared).Sound) :
    Sketch.Drawn declared.outline declared.sketch := by
  obtain ⟨name, parameters, result, body⟩ := forall_children sound
  have results : Sketch.Drawn _
      (Sketch.optional "returns" (declared.result.map Identifier.sketch)) :=
    Sketch.drawn_optional (by decide) fun inner found => Identifier.drawn (result inner found)
  have bodies : Sketch.Drawn _ (Sketch.optional "body" (declared.body.map Block.sketch)) :=
    Sketch.drawn_optional (by decide) fun inner found => Block.drawn (body inner found)
  exact (((((Identifier.drawn name).child (by decide)).append
    ((ParameterList.drawn parameters).child (by decide))).append results).append bodies).nested
      (by decide)

theorem Declaration.drawn {declaration : Declaration} (sound : declaration.node.Sound) :
    Sketch.Drawn declaration.outline declaration.sketch := by
  cases declaration with
  | function declared => exact FunctionDeclaration.drawn sound
  | «variable» definition => exact drawn_binding (by decide) (by decide) sound.children

theorem Module.drawn {module : Module} (sound : (Node.module module).Sound) :
    Sketch.Drawn module.outline module.sketch :=
  (Sketch.drawn_children (by decide) fun _ member =>
    Declaration.drawn (sound.children _ (List.mem_map_of_mem member))).nested (by decide)

theorem Root.drawn {root : Root} (sound : (Node.root root).Sound) :
    Sketch.Drawn root.outline root.sketch :=
  (Sketch.drawn_children (by decide) fun _ member =>
    Module.drawn (sound.children _ (List.mem_map_of_mem member))).nested (by decide)

/-- The outline of every sound node draws its sketch. -/
theorem Node.drawn {node : Node} (sound : node.Sound) :
    Sketch.Drawn node.outlineSteps node.sketch := by
  cases node with
  | expression value => exact Expression.drawn sound
  | returned keyword value => exact @Statement.drawn (.returned keyword value) sound
  | «variable» definition => exact @Statement.drawn (.variable definition) sound
  | recovery token => exact @Statement.drawn (.recovery token) sound
  | block body => exact Block.drawn sound
  | parameter declared => exact Parameter.drawn sound
  | parameterList list => exact ParameterList.drawn sound
  | function declared => exact FunctionDeclaration.drawn sound
  | module body => exact Module.drawn sound
  | root whole => exact Root.drawn sound

end FrontEnd
