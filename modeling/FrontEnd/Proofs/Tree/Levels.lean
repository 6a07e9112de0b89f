/-
This file follows the level of a layout through the steps of a tree. Every node is written in steps
that are balanced: each indentation is ended behind the parts that it indents. So the margins of a
layout follow from the steps alone, whatever trees they write.
-/

import FrontEnd.Proofs.Margins
import FrontEnd.Proofs.Tree.Reprinting

namespace FrontEnd

namespace Layout

/-- Steps are balanced when every indentation among them is ended by a step of its own, and no other
step ends one. -/
inductive Balanced : List Step → Prop
  | nil : Balanced []
  | write (text : String) : Balanced [.write text]
  | writeLine (text : String) : Balanced [.writeLine text]
  | verbatim (text : String) : Balanced [.verbatim text]
  | append {first second : List Step} (balanced : Balanced first) (balanced' : Balanced second) :
      Balanced (first ++ second)
  | indented {steps : List Step} (balanced : Balanced steps) :
      Balanced ([.indent] ++ steps ++ [.dedent])

/-- Balanced steps leave the level as they find it. -/
theorem Balanced.run_level {steps : List Step} (balanced : Balanced steps) (layout : Layout) :
    (layout.run steps).level = layout.level := by
  induction balanced generalizing layout with
  | nil => rfl
  | write text => exact layout.apply_level (.write text)
  | writeLine text => exact layout.apply_level (.writeLine text)
  | verbatim text => exact layout.apply_level (.verbatim text)
  | append _ _ first second => rw [run_append, second, first]
  | @indented steps _ inside =>
      rw [run_append, run_append]
      change (((layout.apply .indent).run steps).apply .dedent).level = layout.level
      rw [apply_level, inside, apply_level]
      rfl

/-- Writing changes no level. -/
theorem Balanced.cons {text : String} {steps : List Step} (balanced : Balanced steps) :
    Balanced (.write text :: steps) :=
  (write text).append balanced

/-- Balanced parts are balanced together. -/
theorem Balanced.flatten {parts : List (List Step)} (balanced : ∀ part ∈ parts, Balanced part) :
    Balanced parts.flatten := by
  induction parts with
  | nil => exact .nil
  | cons part parts inductionHypothesis =>
      obtain ⟨first, others⟩ := List.forall_mem_cons.1 balanced
      exact first.append (inductionHypothesis others)

theorem Balanced.flatMap {α : Type} {items : List α} {steps : α → List Step}
    (balanced : ∀ item ∈ items, Balanced (steps item)) : Balanced (items.flatMap steps) :=
  flatten (List.forall_mem_map.2 balanced)

/-- Separators change no level. -/
theorem Balanced.separated {separator : String} {parts : List (List Step)}
    (balanced : ∀ part ∈ parts, Balanced part) : Balanced (separated separator parts) := by
  induction parts with
  | nil => exact .nil
  | cons first rest inductionHypothesis =>
      obtain ⟨firstBalanced, restBalanced⟩ := List.forall_mem_cons.1 balanced
      cases rest with
      | nil => simpa [FrontEnd.separated] using firstBalanced
      | cons second rest =>
          rw [separated_cons_cons]
          exact firstBalanced.append (.cons (inductionHypothesis restBalanced))

end Layout

open Layout

/-- By induction, an expression ends on the level where it began. -/
theorem Expression.format_balanced (value : Expression) : Balanced value.format := by
  induction value with
  | identifier name => exact .write _
  | boolean token value => exact .write _
  | number token value => exact .write _
  | string token value => exact .cons ((Balanced.verbatim _).append (.write _))
  | binary left operation token right leftBalanced rightBalanced =>
      exact (leftBalanced.append (.cons (.cons (.write _)))).append rightBalanced
  | prefixed operation token operand operandBalanced =>
      refine Balanced.append ?_ operandBalanced
      unfold prefixSteps
      simp only
      split
      · exact .cons (.write _)
      · exact .write _
  | postfixed operand operation token operandBalanced => exact operandBalanced.append (.write _)
  | call receiver arguments close receiverBalanced argumentsBalanced =>
      rw [format, formatAll_eq_map]
      exact ((receiverBalanced.append (.write _)).append
        (.separated (List.forall_mem_map.2 argumentsBalanced))).append (.write _)
  | property receiver name receiverBalanced =>
      exact (receiverBalanced.append (.write _)).append (.write _)
  | group opening content close contentBalanced =>
      exact ((Balanced.write _).append contentBalanced).append (.write _)
  | conditional keyword condition consequent alternative conditionBalanced consequentBalanced
      alternativeBalanced =>
      exact (((((Balanced.write _).append conditionBalanced).append (.write _)).append
        consequentBalanced).append (.write _)).append alternativeBalanced

/-- The optional parts behind a name, each behind its mark. -/
theorem Layout.Balanced.option {α : Type} {part : Option α} {mark : String} {steps : α → List Step}
    (balanced : ∀ value, Balanced (steps value)) :
    Balanced (part.toList.flatMap fun value => .write mark :: steps value) :=
  .flatMap fun value _ => .cons (balanced value)

theorem formatBinding_balanced (name : Identifier) (type : Option Identifier)
    (value : Option Expression) : Balanced (formatBinding name type value) :=
  ((Balanced.write _).append (.option fun _ => .write _)).append
    (.option Expression.format_balanced)

theorem Variable.format_balanced (definition : Variable) : Balanced definition.format :=
  .cons (formatBinding_balanced _ _ _)

/-- A statement ends on the level where it began. -/
theorem Statement.format_balanced (statement : Statement) : Balanced statement.format := by
  cases statement with
  | expression value => exact value.format_balanced
  | returned keyword value => exact .cons value.format_balanced
  | «variable» definition => exact definition.format_balanced
  | recovery token => exact .write _

/-- A block ends the indentation of its lines before its closing bracket. -/
theorem Block.format_balanced (block : Block) : Balanced block.format := by
  unfold format
  split
  · exact .write _
  · have lines : Balanced (block.statements.flatMap fun statement =>
        .write "\n" :: statement.format) :=
      .flatMap fun statement _ => .cons statement.format_balanced
    have opened : Balanced (.write "\x7b" :: ([.indent] ++ _ ++ [.dedent])) := .cons lines.indented
    simpa using opened.append (.write "\n\x7d")

theorem Parameter.format_balanced (parameter : Parameter) : Balanced parameter.format :=
  formatBinding_balanced _ _ _

theorem ParameterList.format_balanced (list : ParameterList) : Balanced list.format :=
  ((Balanced.write _).append (.separated (List.forall_mem_map.2 fun parameter _ =>
    parameter.format_balanced))).append (.write _)

/-- A function ends its body on the level where it began. -/
theorem FunctionDeclaration.format_balanced (declared : FunctionDeclaration) :
    Balanced declared.format :=
  .cons ((((Balanced.write _).append declared.parameters.format_balanced).append
    (.option fun _ => .write _)).append (.option Block.format_balanced))

theorem Declaration.format_balanced (declaration : Declaration) : Balanced declaration.format := by
  cases declaration with
  | function declared => exact declared.format_balanced
  | «variable» definition => exact definition.format_balanced

theorem Module.format_balanced (module : Module) : Balanced module.format :=
  .separated (List.forall_mem_map.2 fun declaration _ => declaration.format_balanced)

/-- The declarations of a file all begin on one level. -/
theorem Root.format_balanced (root : Root) : Balanced root.format :=
  .separated (List.forall_mem_map.2 fun module _ => module.format_balanced)

/-- Every node ends its canonical text on the level where it began. -/
theorem Node.formatSteps_balanced (node : Node) : Balanced node.formatSteps := by
  cases node with
  | expression value => exact value.format_balanced
  | returned keyword value => exact Statement.format_balanced (.returned keyword value)
  | «variable» definition => exact definition.format_balanced
  | recovery token => exact Statement.format_balanced (.recovery token)
  | block body => exact body.format_balanced
  | parameter declared => exact declared.format_balanced
  | parameterList list => exact list.format_balanced
  | function declared => exact declared.format_balanced
  | module body => exact body.format_balanced
  | root whole => exact whole.format_balanced

namespace Outline

variable {sort name : String} {parts : List Step}

/-- A node ends the level that it opens for its parts. -/
theorem balanced_node (balanced : Balanced parts) : Balanced (node sort parts) :=
  (Balanced.writeLine sort).append balanced.indented

theorem balanced_field (name value : String) : Balanced (field name value) := .writeLine _

/-- A part ends the level that it opens below its name. -/
theorem balanced_child (balanced : Balanced parts) : Balanced (child name parts) :=
  balanced_node balanced

/-- A part that is missing opens no level. -/
theorem balanced_optional {α : Type} {steps : α → List Step} (part : Option α)
    (balanced : ∀ value, Balanced (steps value)) :
    Balanced (optional name (part.map steps)) := by
  cases part with
  | none => exact .nil
  | some value => exact balanced_child (balanced value)

/-- An empty list opens no level, and any other ends the one that it opens. -/
theorem balanced_children {items : List (List Step)} (balanced : ∀ item ∈ items, Balanced item) :
    Balanced (children name items) := by
  unfold children
  split
  · exact .writeLine _
  · exact balanced_child (.flatten balanced)

end Outline

open Outline

theorem Identifier.outline_balanced (name : Identifier) : Balanced name.outline := by
  refine balanced_node ((balanced_field _ _).append ?_)
  split
  · exact balanced_field _ _
  · exact .nil

/-- By induction, the outline of an expression ends on the level where it began. -/
theorem Expression.outline_balanced (value : Expression) : Balanced value.outline := by
  induction value with
  | identifier name => exact name.outline_balanced
  | boolean token value => exact balanced_node (balanced_field _ _)
  | number token value => exact balanced_node (balanced_field _ _)
  | string token value => exact balanced_node (balanced_field _ _)
  | binary left operation token right leftBalanced rightBalanced =>
      exact balanced_node (((balanced_field _ _).append (balanced_child leftBalanced)).append
        (balanced_child rightBalanced))
  | prefixed operation token operand operandBalanced =>
      exact balanced_node ((balanced_field _ _).append (balanced_child operandBalanced))
  | postfixed operand operation token operandBalanced =>
      exact balanced_node ((balanced_field _ _).append (balanced_child operandBalanced))
  | call receiver arguments close receiverBalanced argumentsBalanced =>
      rw [outline, outlineAll_eq_map]
      exact balanced_node ((balanced_child receiverBalanced).append
        (balanced_children (List.forall_mem_map.2 argumentsBalanced)))
  | property receiver name receiverBalanced =>
      exact balanced_node ((balanced_child receiverBalanced).append
        (balanced_child name.outline_balanced))
  | group opening content close contentBalanced =>
      exact balanced_node (balanced_child contentBalanced)
  | conditional keyword condition consequent alternative conditionBalanced consequentBalanced
      alternativeBalanced =>
      exact balanced_node (((balanced_child conditionBalanced).append
        (balanced_child consequentBalanced)).append (balanced_child alternativeBalanced))

/-- The parts of a variable or of a parameter. -/
theorem Outline.balanced_binding (name : Identifier) (type : Option Identifier)
    (value : Option Expression) (title : String) :
    Balanced (child "name" name.outline ++ optional "type" (type.map Identifier.outline) ++
      optional title (value.map Expression.outline)) :=
  ((balanced_child name.outline_balanced).append
    (balanced_optional type Identifier.outline_balanced)).append
      (balanced_optional value Expression.outline_balanced)

theorem Variable.outline_balanced (definition : Variable) : Balanced definition.outline :=
  balanced_node (balanced_binding _ _ _ _)

/-- The outline of a statement ends on the level where it began. -/
theorem Statement.outline_balanced (statement : Statement) : Balanced statement.outline := by
  cases statement with
  | expression value => exact value.outline_balanced
  | returned keyword value => exact balanced_node (balanced_child value.outline_balanced)
  | «variable» definition => exact definition.outline_balanced
  | recovery token => exact balanced_node (balanced_field _ _)

theorem Block.outline_balanced (block : Block) : Balanced block.outline :=
  balanced_node (balanced_children (List.forall_mem_map.2 fun statement _ =>
    statement.outline_balanced))

theorem Parameter.outline_balanced (parameter : Parameter) : Balanced parameter.outline :=
  balanced_node (balanced_binding _ _ _ _)

theorem ParameterList.outline_balanced (list : ParameterList) : Balanced list.outline :=
  balanced_node (balanced_children (List.forall_mem_map.2 fun parameter _ =>
    parameter.outline_balanced))

/-- The outline of a function ends on the level where it began. -/
theorem FunctionDeclaration.outline_balanced (declared : FunctionDeclaration) :
    Balanced declared.outline :=
  balanced_node ((((balanced_child declared.name.outline_balanced).append
    (balanced_child declared.parameters.outline_balanced)).append
      (balanced_optional _ Identifier.outline_balanced)).append
        (balanced_optional _ Block.outline_balanced))

theorem Declaration.outline_balanced (declaration : Declaration) :
    Balanced declaration.outline := by
  cases declaration with
  | function declared => exact declared.outline_balanced
  | «variable» definition => exact definition.outline_balanced

theorem Module.outline_balanced (module : Module) : Balanced module.outline :=
  balanced_node (balanced_children (List.forall_mem_map.2 fun declaration _ =>
    declaration.outline_balanced))

theorem Root.outline_balanced (root : Root) : Balanced root.outline :=
  balanced_node (balanced_children (List.forall_mem_map.2 fun module _ => module.outline_balanced))

/-- Every node ends its outline on the level where it began. -/
theorem Node.outlineSteps_balanced (node : Node) : Balanced node.outlineSteps := by
  cases node with
  | expression value => exact value.outline_balanced
  | returned keyword value => exact Statement.outline_balanced (.returned keyword value)
  | «variable» definition => exact definition.outline_balanced
  | recovery token => exact Statement.outline_balanced (.recovery token)
  | block body => exact body.outline_balanced
  | parameter declared => exact declared.outline_balanced
  | parameterList list => exact list.outline_balanced
  | function declared => exact declared.outline_balanced
  | module body => exact body.outline_balanced
  | root whole => exact whole.outline_balanced

namespace Layout

/-- Writing the parts of a text one after the other is writing the text. -/
theorem run_writes (layout : Layout) (parts : List String) :
    layout.run (parts.map Step.write) = layout.apply (.write (String.join parts)) := by
  rw [apply, String.toList_join]
  induction parts generalizing layout with
  | nil => rfl
  | cons first rest inductionHypothesis =>
      rw [List.flatMap_cons, putAll_append]
      exact inductionHypothesis _

/-- What any steps lay out is their raw text, each character of it behind as many copies of the unit
as the steps up to this character demand: none but where a line starts and the step indents the
character, and there the level in force. A text can be written in parts, and the steps of a tree
leave the level as they find it. -/
theorem run_indented (unit : String) (steps : List Step) :
    ((start unit).run steps).text =
        String.ofList (insertUnits unit.toList (copies steps) (rawText steps)) ∧
      (copies steps).length = (rawText steps).length ∧
      (∀ before parts after, (start unit).run (before ++ parts.map Step.write ++ after) =
        (start unit).run (before ++ [.write (String.join parts)] ++ after)) ∧
      ∀ (node : Node) (layout : Layout), (layout.run node.formatSteps).level = layout.level ∧
        (layout.run node.outlineSteps).level = layout.level := by
  refine ⟨?_, length_copies steps, fun before parts after => ?_, fun node layout => ?_⟩
  · rw [text, (stands_run unit steps).written, List.reverse_reverse]
  · rw [run_append, run_append, run_writes, run_append, run_append]
    rfl
  · exact ⟨node.formatSteps_balanced.run_level layout, node.outlineSteps_balanced.run_level layout⟩

/-- A line that a verbatim text starts is indented by what is written behind it. -/
example :
    let steps : List Step := [.indent, .dedent, .dedent, .indent, .writeLine "\na",
      .verbatim "b\nc\n", .indent, .write "\nd"]
    copies steps = [0, 1, 0, 1, 0, 0, 0, 0, 2] ∧ rawText steps = "\na\nb\nc\n\nd".toList := by
  decide

end Layout

end FrontEnd
