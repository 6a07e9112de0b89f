/-
This file lists the tokens that a tree stores, in the order of the source, with the reports that
come with placeholders in their places.
-/

import FrontEnd.Diagnostic.Code
import FrontEnd.Proofs.Tree.ModuleShape
import FrontEnd.Proofs.Token.Spelling
import FrontEnd.Tree.Nodes

namespace FrontEnd

/-- A place of a tree for a token. A placeholder that stands in it comes with a report of its
code, and a place without a code holds no placeholder. -/
structure Slot where
  code : Option Code
  token : Token
  deriving DecidableEq, Repr

/-- A missing bracket can be put where its placeholder stands, while a missing name or statement
cannot be made up. -/
def Slot.IsRepairable (slot : Slot) : Prop :=
  slot.token.error → slot.code ≠ some .expectedIdentifier ∧ slot.code ≠ some .unexpectedToken

/-- Only brackets are missing. -/
def Repairable (slots : List Slot) : Prop := ∀ slot ∈ slots, slot.IsRepairable

@[simp] theorem repairable_nil : Repairable [] := by simp [Repairable]

@[simp] theorem repairable_append {first second : List Slot} :
    Repairable (first ++ second) ↔ Repairable first ∧ Repairable second :=
  List.forall_mem_append

@[simp] theorem repairable_cons {slot : Slot} {slots : List Slot} :
    Repairable (slot :: slots) ↔ slot.IsRepairable ∧ Repairable slots :=
  List.forall_mem_cons

@[simp] theorem repairable_flatMap {α : Type} {slots : α → List Slot} {values : List α} :
    Repairable (values.flatMap slots) ↔ ∀ value ∈ values, Repairable (slots value) := by
  simp only [Repairable, List.mem_flatMap]
  constructor
  · exact fun all value member slot inside => all slot ⟨value, member, inside⟩
  · rintro all slot ⟨value, member, inside⟩
    exact all value member slot inside

/-- The placeholders in some places, with their codes and offsets. -/
def placeholders (slots : List Slot) : List (Option Code × Nat) :=
  (slots.filter (·.token.error)).map fun slot => (slot.code, slot.token.offset)

/-- The placeholders of two lists of places follow each other. -/
theorem placeholders_append (first second : List Slot) :
    placeholders (first ++ second) = placeholders first ++ placeholders second := by
  simp [placeholders]

/-- Places without placeholders need no repair. -/
theorem repairable_of_placeholders {slots : List Slot} (none : placeholders slots = []) :
    Repairable slots := by
  intro slot member flagged
  have absent := List.filter_eq_nil_iff.1 (List.map_eq_nil_iff.1 none) slot member
  exact absurd flagged absent

/-- A name that is missing is reported as such. -/
def Identifier.slots (name : Identifier) : List Slot := [⟨some .expectedIdentifier, name.token⟩]

mutual

/-- The tokens of an expression. Only names and closing parentheses are ever missing. -/
def Expression.slots : Expression → List Slot
  | .identifier name => name.slots
  | .boolean token _ | .number token _ | .string token _ => [⟨none, token⟩]
  | .binary left _ token right => left.slots ++ ⟨none, token⟩ :: right.slots
  | .prefixed _ token operand => ⟨none, token⟩ :: operand.slots
  | .postfixed operand _ token => operand.slots ++ [⟨none, token⟩]
  | .call receiver arguments close =>
      receiver.slots ++ (Expression.slotsOfAll arguments ++ [⟨some .expectedParentheses, close⟩])
  | .property receiver name => receiver.slots ++ name.slots
  | .group opening content close =>
      ⟨none, opening⟩ :: (content.slots ++ [⟨some .expectedParentheses, close⟩])
  | .conditional keyword condition consequent alternative =>
      ⟨none, keyword⟩ :: (condition.slots ++ (consequent.slots ++ alternative.slots))

def Expression.slotsOfAll : List Expression → List Slot
  | [] => []
  | first :: rest => first.slots ++ Expression.slotsOfAll rest

end

@[simp] theorem Expression.slotsOfAll_eq_flatMap (values : List Expression) :
    Expression.slotsOfAll values = values.flatMap Expression.slots := by
  induction values with
  | nil => rfl
  | cons first rest inductionHypothesis =>
      rw [Expression.slotsOfAll, inductionHypothesis, List.flatMap_cons]

/-- The nodes of arguments follow each other. -/
theorem Expression.nodesOfAll_eq_flatMap (depth : Nat) (values : List Expression) :
    Expression.nodesOfAll depth values = values.flatMap (·.nodes depth) := by
  induction values with
  | nil => rfl
  | cons first rest inductionHypothesis =>
      rw [Expression.nodesOfAll, inductionHypothesis, List.flatMap_cons]

/-- The places of a name, its type and its value in order. -/
def slotsOfBinding (name : Identifier) (type : Option Identifier) (value : Option Expression) :
    List Slot :=
  name.slots ++ type.toList.flatMap Identifier.slots ++ value.toList.flatMap Expression.slots

def Variable.slots (definition : Variable) : List Slot :=
  ⟨none, definition.keyword⟩ ::
    slotsOfBinding definition.name definition.type definition.value

/-- A token that starts no statement is reported as unexpected. -/
def Statement.slots : Statement → List Slot
  | .expression value => value.slots
  | .returned keyword value => ⟨none, keyword⟩ :: value.slots
  | .variable definition => definition.slots
  | .recovery token => [⟨some .unexpectedToken, token⟩]

/-- The brackets of a block can be missing. -/
def Block.slots (block : Block) : List Slot :=
  ⟨some .expectedCurly, block.opening⟩ ::
    (block.statements.flatMap Statement.slots ++ [⟨some .expectedCurly, block.close⟩])

def Parameter.slots (parameter : Parameter) : List Slot :=
  slotsOfBinding parameter.name parameter.type parameter.default

def ParameterList.slots (list : ParameterList) : List Slot :=
  ⟨some .expectedParentheses, list.opening⟩ ::
    (list.parameters.flatMap Parameter.slots ++ [⟨some .expectedParentheses, list.close⟩])

/-- The keyword of a function cannot be missing. -/
def FunctionDeclaration.slots (declared : FunctionDeclaration) : List Slot :=
  ⟨none, declared.keyword⟩ :: (declared.name.slots ++ declared.parameters.slots ++
    declared.result.toList.flatMap Identifier.slots ++ declared.body.toList.flatMap Block.slots)

def Declaration.slots : Declaration → List Slot
  | .function declared => declared.slots
  | .variable definition => definition.slots

/-- A module has the places of its declarations. -/
def Module.slots (module : Module) : List Slot :=
  ⟨none, module.boundary⟩ :: module.declarations.flatMap Declaration.slots

def Root.slots (root : Root) : List Slot :=
  root.modules.flatMap Module.slots ++ [⟨none, root.marker⟩]

/-- The places of a node of any sort. -/
def Node.slots : Node → List Slot
  | .expression value => value.slots
  | .returned keyword value => Statement.slots (.returned keyword value)
  | .variable definition => definition.slots
  | .recovery token => Statement.slots (.recovery token)
  | .block body => body.slots
  | .parameter declared => declared.slots
  | .parameterList list => list.slots
  | .function declared => declared.slots
  | .module body => body.slots
  | .root whole => whole.slots

end FrontEnd
