/-
This file reads a tree back from its outline. Trees of texts have the same outline exactly when they
are the same but for their tokens.
-/

import FrontEnd.Proofs.Tree.Drawing

namespace FrontEnd

section Stripped

variable {α : Type} {view : α → Sketch} {strip : α → α}
  (each : ∀ item, view (strip item) = view item)

include each

/-- A view that does not see what is stripped is the same without it. -/
theorem map_stripped (items : List α) : (items.map strip).map view = items.map view := by
  rw [List.map_map]
  exact List.map_congr_left fun item _ => each item

theorem optionMap_stripped (value : Option α) : (value.map strip).map view = value.map view := by
  cases value with
  | none => rfl
  | some inner => exact congrArg some (each inner)

end Stripped

/-- By induction, the sketch of an expression shows nothing of what is stripped. -/
theorem Expression.sketch_bare (value : Expression) : value.bare.sketch = value.sketch := by
  induction value with
  | identifier | boolean | number | string => rfl
  | call receiver arguments close receiverHypothesis argumentsHypothesis =>
      have items : (arguments.map bare).map sketch = arguments.map sketch := by
        rw [List.map_map]
        exact List.map_congr_left argumentsHypothesis
      simp only [bare, sketch, bareAll_eq_map, sketchAll_eq_map, receiverHypothesis, items]
  | property receiver name inductionHypothesis =>
      rw [bare, sketch, sketch, inductionHypothesis]
      rfl
  | prefixed operation token operand inductionHypothesis
  | postfixed operand operation token inductionHypothesis
  | group opening operand close inductionHypothesis =>
      rw [bare, sketch, sketch, inductionHypothesis]
  | binary left operation token right leftHypothesis rightHypothesis =>
      rw [bare, sketch, sketch, leftHypothesis, rightHypothesis]
  | conditional keyword condition consequent alternative conditionHypothesis consequentHypothesis
      alternativeHypothesis =>
      rw [bare, sketch, sketch, conditionHypothesis, consequentHypothesis, alternativeHypothesis]

/-- The sketch of a variable or a parameter shows nothing of what is stripped. -/
theorem sketchOfBinding_bare (sort last : String) (name : Identifier) (type : Option Identifier)
    (value : Option Expression) :
    sketchOfBinding sort last name.bare (type.map Identifier.bare) (value.map Expression.bare) =
      sketchOfBinding sort last name type value := by
  have names : ∀ name : Identifier, name.bare.sketch = name.sketch := fun _ => rfl
  rw [sketchOfBinding, optionMap_stripped names, optionMap_stripped Expression.sketch_bare, names,
    sketchOfBinding]

/-- The sketch of a statement shows nothing of what is stripped. -/
theorem Statement.sketch_bare (statement : Statement) :
    statement.bare.sketch = statement.sketch := by
  cases statement with
  | expression value => exact value.sketch_bare
  | returned keyword value => rw [bare, sketch, sketch, value.sketch_bare]
  | «variable» definition => exact sketchOfBinding_bare ..
  | recovery token => rfl

theorem Block.sketch_bare (block : Block) : block.bare.sketch = block.sketch := by
  rw [sketch, bare, map_stripped Statement.sketch_bare, sketch]

theorem Parameter.sketch_bare (parameter : Parameter) :
    parameter.bare.sketch = parameter.sketch :=
  sketchOfBinding_bare ..

theorem ParameterList.sketch_bare (list : ParameterList) : list.bare.sketch = list.sketch := by
  rw [sketch, bare, map_stripped Parameter.sketch_bare, sketch]

/-- The sketch of a function shows nothing of what is stripped. -/
theorem FunctionDeclaration.sketch_bare (declared : FunctionDeclaration) :
    declared.bare.sketch = declared.sketch := by
  have names : ∀ name : Identifier, name.bare.sketch = name.sketch := fun _ => rfl
  rw [sketch, bare, ParameterList.sketch_bare, optionMap_stripped names,
    optionMap_stripped Block.sketch_bare, names, sketch]

theorem Declaration.sketch_bare (declaration : Declaration) :
    declaration.bare.sketch = declaration.sketch := by
  cases declaration with
  | function declared => exact declared.sketch_bare
  | «variable» definition => exact sketchOfBinding_bare ..

theorem Module.sketch_bare (module : Module) : module.bare.sketch = module.sketch := by
  rw [sketch, bare, map_stripped Declaration.sketch_bare, sketch]

/-- The sketch of a file shows nothing of what is stripped. -/
theorem Root.sketch_bare (root : Root) : root.bare.sketch = root.sketch := by
  rw [sketch, bare, map_stripped Module.sketch_bare, sketch]

/-- The sketch of a node shows nothing of what is stripped. -/
theorem Node.sketch_bare (node : Node) : node.bare.sketch = node.sketch := by
  cases node with
  | expression value => exact value.sketch_bare
  | returned keyword value => exact Statement.sketch_bare (.returned keyword value)
  | «variable» definition => exact Statement.sketch_bare (.variable definition)
  | recovery token => rfl
  | block body => exact body.sketch_bare
  | parameter declared => exact declared.sketch_bare
  | parameterList list => exact list.sketch_bare
  | function declared => exact declared.sketch_bare
  | module body => exact body.sketch_bare
  | root whole => exact whole.sketch_bare

/-- The sketch of a name shows the name and whether it was put in. -/
theorem Identifier.sketch_inj {name name' : Identifier} (same : name.sketch = name'.sketch) :
    name.bare = name'.bare := by
  obtain ⟨-, below, -⟩ := Sketch.line.inj same
  obtain ⟨lexemes, -, errors⟩ := Sketch.line.inj below
  have flags : name.token.error = name'.token.error := by
    cases flag : name.token.error <;> cases flag' : name'.token.error <;>
      simp [flag, flag', Sketch.field, Sketch.nested, Sketch.append] at errors ⊢
  rw [bare, bare, (String.append_right_inj _).1 lexemes, flags]

/-- The sorts of expressions are not those of other nodes. -/
def expressionSorts : List String :=
  ["Identifier", "LiteralBoolean", "LiteralNumber", "LiteralString", "BinaryExpression",
    "PrefixExpression", "PostfixExpression", "CallExpression", "PropertyExpression",
    "GroupExpression", "ConditionalExpression"]

/-- The sketch of an expression begins with one of the sorts of expressions. -/
theorem Expression.exists_sketch (value : Expression) :
    ∃ sort ∈ expressionSorts, ∃ below, value.sketch = Sketch.nested sort below := by
  cases value <;> exact ⟨_, by decide, _, rfl⟩

/-- The sketch of an expression is not empty. -/
theorem Expression.exists_nested (value : Expression) :
    ∃ label below, value.sketch = Sketch.nested label below :=
  value.exists_sketch.imp fun _ found => found.2

/-- No other node has a sketch that could be that of an expression. -/
theorem Expression.sketch_ne (value : Expression) {sort : String} {below : Sketch}
    (other : sort ∉ expressionSorts) : value.sketch ≠ Sketch.nested sort below := by
  intro same
  obtain ⟨sort', listed, below', shown⟩ := value.exists_sketch
  rw [shown] at same
  exact other ((Sketch.line.inj same).1 ▸ listed)

/-- Expressions of texts are told by their sketches. The first line says which form they have. -/
theorem Expression.sketch_inj {value value' : Expression} (sound : (Node.expression value).Sound)
    (sound' : (Node.expression value').Sound) (same : value.sketch = value'.sketch) :
    value.bare = value'.bare := by
  induction value generalizing value' with
  | identifier name =>
      cases value' with
      | identifier name' => exact congrArg identifier (Identifier.sketch_inj same)
      | _ => exact absurd (Sketch.line.inj same).1 (by decide)
  | boolean token value =>
      cases value' with
      | boolean token' value' =>
          have texts := Sketch.field_inj (Sketch.line.inj same).2.1
          cases value <;> cases value'
          · rfl
          · exact absurd texts (by decide)
          · exact absurd texts (by decide)
          · rfl
      | _ => exact absurd (Sketch.line.inj same).1 (by decide)
  | number token value =>
      cases value' with
      | number token' value' =>
          have texts := Sketch.field_inj (Sketch.line.inj same).2.1
          have read := (number_print sound).2
          rw [texts, (number_print sound').2] at read
          rw [bare, bare, Option.some.inj read]
      | _ => exact absurd (Sketch.line.inj same).1 (by decide)
  | string token value =>
      cases value' with
      | string token' value' =>
          have texts := Sketch.field_inj (Sketch.line.inj same).2.1
          rw [bare, bare, Text.quote_injective texts]
      | _ => exact absurd (Sketch.line.inj same).1 (by decide)
  | binary left operation token right leftHypothesis rightHypothesis =>
      cases value' with
      | binary left' operation' token' right' =>
          obtain ⟨-, below, -⟩ := Sketch.line.inj same
          obtain ⟨signs, -, operands⟩ := Sketch.line.inj below
          obtain ⟨-, lefts, last⟩ := Sketch.line.inj operands
          obtain ⟨-, rights, -⟩ := Sketch.line.inj last
          rw [bare, bare, Operation.name_injective ((String.append_right_inj _).1 signs),
            leftHypothesis (sound.children _ (.head _)) (sound'.children _ (.head _)) lefts,
            rightHypothesis (sound.children _ (.tail _ (.head _)))
              (sound'.children _ (.tail _ (.head _))) rights]
      | _ => exact absurd (Sketch.line.inj same).1 (by decide)
  | prefixed operation token operand inductionHypothesis =>
      cases value' with
      | prefixed operation' token' operand' =>
          obtain ⟨-, below, -⟩ := Sketch.line.inj same
          obtain ⟨signs, -, last⟩ := Sketch.line.inj below
          obtain ⟨-, operands, -⟩ := Sketch.line.inj last
          rw [bare, bare, Operation.name_injective ((String.append_right_inj _).1 signs),
            inductionHypothesis (sound.children _ (.head _)) (sound'.children _ (.head _)) operands]
      | _ => exact absurd (Sketch.line.inj same).1 (by decide)
  | postfixed operand operation token inductionHypothesis =>
      cases value' with
      | postfixed operand' operation' token' =>
          obtain ⟨-, below, -⟩ := Sketch.line.inj same
          obtain ⟨signs, -, last⟩ := Sketch.line.inj below
          obtain ⟨-, operands, -⟩ := Sketch.line.inj last
          rw [bare, bare, Operation.name_injective ((String.append_right_inj _).1 signs),
            inductionHypothesis (sound.children _ (.head _)) (sound'.children _ (.head _)) operands]
      | _ => exact absurd (Sketch.line.inj same).1 (by decide)
  | call receiver arguments close receiverHypothesis argumentsHypothesis =>
      cases value' with
      | call receiver' arguments' close' =>
          obtain ⟨-, below, -⟩ := Sketch.line.inj same
          obtain ⟨-, receivers, items⟩ := Sketch.line.inj below
          rw [sketchAll_eq_map, sketchAll_eq_map] at items
          have contents := Sketch.children_inj exists_nested (fun item member item' member' =>
            argumentsHypothesis item member
              (sound.children _ (.tail _ (List.mem_map_of_mem member)))
              (sound'.children _ (.tail _ (List.mem_map_of_mem member')))) items
          rw [bare, bare, bareAll_eq_map, bareAll_eq_map, contents,
            receiverHypothesis (sound.children _ (.head _)) (sound'.children _ (.head _)) receivers]
      | _ => exact absurd (Sketch.line.inj same).1 (by decide)
  | property receiver name inductionHypothesis =>
      cases value' with
      | property receiver' name' =>
          obtain ⟨-, below, -⟩ := Sketch.line.inj same
          obtain ⟨-, receivers, last⟩ := Sketch.line.inj below
          obtain ⟨-, names, -⟩ := Sketch.line.inj last
          rw [bare, bare,
            inductionHypothesis (sound.children _ (.head _)) (sound'.children _ (.head _))
              receivers,
            Identifier.sketch_inj names]
      | _ => exact absurd (Sketch.line.inj same).1 (by decide)
  | group opening content close inductionHypothesis =>
      cases value' with
      | group opening' content' close' =>
          obtain ⟨-, below, -⟩ := Sketch.line.inj same
          obtain ⟨-, contents, -⟩ := Sketch.line.inj below
          rw [bare, bare,
            inductionHypothesis (sound.children _ (.head _)) (sound'.children _ (.head _)) contents]
      | _ => exact absurd (Sketch.line.inj same).1 (by decide)
  | conditional keyword condition consequent alternative conditionHypothesis consequentHypothesis
      alternativeHypothesis =>
      cases value' with
      | conditional keyword' condition' consequent' alternative' =>
          obtain ⟨-, below, -⟩ := Sketch.line.inj same
          obtain ⟨-, conditions, others⟩ := Sketch.line.inj below
          obtain ⟨-, consequents, final⟩ := Sketch.line.inj others
          obtain ⟨-, alternatives, -⟩ := Sketch.line.inj final
          rw [bare, bare,
            conditionHypothesis (sound.children _ (.head _)) (sound'.children _ (.head _))
              conditions,
            consequentHypothesis (sound.children _ (.tail _ (.head _)))
              (sound'.children _ (.tail _ (.head _))) consequents,
            alternativeHypothesis (sound.children _ (.tail _ (.tail _ (.head _))))
              (sound'.children _ (.tail _ (.tail _ (.head _)))) alternatives]
      | _ => exact absurd (Sketch.line.inj same).1 (by decide)

/-- Missing parts are missing in both trees, and present ones are told by their sketches. -/
theorem map_bare_of_map_sketch {α β : Type} {view : α → Sketch} {image : α → β}
    {value value' : Option α}
    (told : ∀ inner ∈ value, ∀ inner' ∈ value', view inner = view inner' →
      image inner = image inner')
    (same : value.map view = value'.map view) : value.map image = value'.map image := by
  cases value <;> cases value'
  · rfl
  · cases same
  · cases same
  · exact congrArg some (told _ rfl _ rfl (Option.some.inj same))

section Bindings

variable {sort last : String} {name name' : Identifier} {type type' : Option Identifier}
  {value value' : Option Expression}

/-- The label of the value tells it from the type, so that neither is taken for the other. -/
theorem sketchOfBinding_inj (differ : "type" ≠ last)
    (sound : ∀ child ∈ childrenOfBinding name type value, child.Sound)
    (sound' : ∀ child ∈ childrenOfBinding name' type' value', child.Sound)
    (same : sketchOfBinding sort last name type value =
      sketchOfBinding sort last name' type' value') :
    name.bare = name'.bare ∧ type.map Identifier.bare = type'.map Identifier.bare ∧
      value.map Expression.bare = value'.map Expression.bare := by
  obtain ⟨-, -, valueSound⟩ := forall_childrenOfBinding sound
  obtain ⟨-, -, valueSound'⟩ := forall_childrenOfBinding sound'
  obtain ⟨-, below, -⟩ := Sketch.line.inj same
  obtain ⟨-, names, options⟩ := Sketch.line.inj below
  obtain ⟨types, values⟩ := Sketch.optional_append_inj differ options
  refine ⟨Identifier.sketch_inj names, ?_, ?_⟩
  · exact map_bare_of_map_sketch (fun _ _ _ _ => Identifier.sketch_inj) types
  · exact map_bare_of_map_sketch (fun inner found inner' found' =>
      Expression.sketch_inj (valueSound inner found) (valueSound' inner' found')) values

end Bindings

/-- The sketch of a variable shows its name, its type and its value. -/
theorem Variable.sketch_inj {definition definition' : Variable}
    (sound : (Node.variable definition).Sound) (sound' : (Node.variable definition').Sound)
    (same : definition.sketch = definition'.sketch) : definition.bare = definition'.bare := by
  obtain ⟨names, types, values⟩ :=
    sketchOfBinding_inj (by decide) sound.children sound'.children same
  rw [bare, bare, names, types, values]

/-- The sort that a sketch begins with tells statements apart. -/
theorem Statement.sketch_inj {statement statement' : Statement} (sound : statement.node.Sound)
    (sound' : statement'.node.Sound) (same : statement.sketch = statement'.sketch) :
    statement.bare = statement'.bare := by
  cases statement with
  | expression value =>
      cases statement' with
      | expression value' => exact congrArg expression (Expression.sketch_inj sound sound' same)
      | _ => exact absurd same (value.sketch_ne (by decide))
  | returned keyword value =>
      cases statement' with
      | expression value' => exact absurd same.symm (value'.sketch_ne (by decide))
      | returned keyword' value' =>
          obtain ⟨-, below, -⟩ := Sketch.line.inj same
          obtain ⟨-, values, -⟩ := Sketch.line.inj below
          rw [bare, bare, Expression.sketch_inj (sound.children _ (.head _))
            (sound'.children _ (.head _)) values]
      | _ => exact absurd (Sketch.line.inj same).1 (by decide)
  | «variable» definition =>
      cases statement' with
      | expression value' => exact absurd same.symm (value'.sketch_ne (by decide))
      | «variable» definition' =>
          exact congrArg Statement.variable (Variable.sketch_inj sound sound' same)
      | _ => exact absurd (Sketch.line.inj same).1 (by decide)
  | recovery token =>
      cases statement' with
      | expression value' => exact absurd same.symm (value'.sketch_ne (by decide))
      | recovery token' =>
          have offsets := Sketch.field_inj (Sketch.line.inj same).2.1
          rw [bare, bare, Nat.repr_inj.1 offsets]
      | _ => exact absurd (Sketch.line.inj same).1 (by decide)

/-- The sketch of a block shows its statements one by one. -/
theorem Block.sketch_inj {block block' : Block} (sound : (Node.block block).Sound)
    (sound' : (Node.block block').Sound) (same : block.sketch = block'.sketch) :
    block.bare = block'.bare := by
  have single : ∀ statement : Statement,
      ∃ label below, statement.sketch = Sketch.nested label below := by
    intro statement
    cases statement with
    | expression value => exact value.exists_nested
    | _ => exact ⟨_, _, rfl⟩
  have statements := Sketch.children_inj single (fun statement member statement' member' =>
    Statement.sketch_inj (sound.children _ (List.mem_map_of_mem member))
      (sound'.children _ (List.mem_map_of_mem member'))) (Sketch.line.inj same).2.1
  rw [bare, bare, statements]

theorem Parameter.sketch_inj {parameter parameter' : Parameter}
    (sound : (Node.parameter parameter).Sound) (sound' : (Node.parameter parameter').Sound)
    (same : parameter.sketch = parameter'.sketch) : parameter.bare = parameter'.bare := by
  obtain ⟨names, types, values⟩ :=
    sketchOfBinding_inj (by decide) sound.children sound'.children same
  rw [bare, bare, names, types, values]

/-- The sketch of a list shows its parameters one by one. -/
theorem ParameterList.sketch_inj {list list' : ParameterList}
    (sound : (Node.parameterList list).Sound) (sound' : (Node.parameterList list').Sound)
    (same : list.sketch = list'.sketch) : list.bare = list'.bare := by
  have parameters := Sketch.children_inj (fun _ => ⟨_, _, rfl⟩)
    (fun parameter member parameter' member' =>
      Parameter.sketch_inj (sound.children _ (List.mem_map_of_mem member))
        (sound'.children _ (List.mem_map_of_mem member'))) (Sketch.line.inj same).2.1
  rw [bare, bare, parameters]

/-- The labels of a sketch tell the parts of a function apart, also where some are missing. -/
theorem FunctionDeclaration.sketch_inj {declared declared' : FunctionDeclaration}
    (sound : (Node.function declared).Sound) (sound' : (Node.function declared').Sound)
    (same : declared.sketch = declared'.sketch) : declared.bare = declared'.bare := by
  obtain ⟨-, list, -, body⟩ := forall_children sound
  obtain ⟨-, list', -, body'⟩ := forall_children sound'
  obtain ⟨-, below, -⟩ := Sketch.line.inj same
  obtain ⟨-, names, signature⟩ := Sketch.line.inj below
  obtain ⟨-, lists, options⟩ := Sketch.line.inj signature
  obtain ⟨results, bodies⟩ := Sketch.optional_append_inj (by decide) options
  have sameResults : declared.result.map Identifier.bare = declared'.result.map Identifier.bare :=
    map_bare_of_map_sketch (fun _ _ _ _ => Identifier.sketch_inj) results
  have sameBodies : declared.body.map Block.bare = declared'.body.map Block.bare :=
    map_bare_of_map_sketch (fun inner found inner' found' =>
      Block.sketch_inj (body inner found) (body' inner' found')) bodies
  rw [bare, bare, Identifier.sketch_inj names, ParameterList.sketch_inj list list' lists,
    sameResults, sameBodies]

/-- The sort that a sketch begins with tells functions and variables apart. -/
theorem Declaration.sketch_inj {declaration declaration' : Declaration}
    (sound : declaration.node.Sound) (sound' : declaration'.node.Sound)
    (same : declaration.sketch = declaration'.sketch) : declaration.bare = declaration'.bare := by
  cases declaration with
  | function declared =>
      cases declaration' with
      | function declared' =>
          exact congrArg function (FunctionDeclaration.sketch_inj sound sound' same)
      | «variable» definition' => exact absurd (Sketch.line.inj same).1 (by decide)
  | «variable» definition =>
      cases declaration' with
      | function declared' => exact absurd (Sketch.line.inj same).1 (by decide)
      | «variable» definition' =>
          exact congrArg Declaration.variable (Variable.sketch_inj sound sound' same)

/-- The sketch of a module shows its declarations one by one. -/
theorem Module.sketch_inj {module module' : Module} (sound : (Node.module module).Sound)
    (sound' : (Node.module module').Sound) (same : module.sketch = module'.sketch) :
    module.bare = module'.bare := by
  have single : ∀ declaration : Declaration,
      ∃ label below, declaration.sketch = Sketch.nested label below := by
    intro declaration
    cases declaration <;> exact ⟨_, _, rfl⟩
  have declarations := Sketch.children_inj single (fun declaration member declaration' member' =>
    Declaration.sketch_inj (sound.children _ (List.mem_map_of_mem member))
      (sound'.children _ (List.mem_map_of_mem member'))) (Sketch.line.inj same).2.1
  rw [bare, bare, declarations]

theorem Root.sketch_inj {root root' : Root} (sound : (Node.root root).Sound)
    (sound' : (Node.root root').Sound) (same : root.sketch = root'.sketch) :
    root.bare = root'.bare := by
  have modules := Sketch.children_inj (fun _ => ⟨_, _, rfl⟩)
    (fun module member module' member' =>
      Module.sketch_inj (sound.children _ (List.mem_map_of_mem member))
        (sound'.children _ (List.mem_map_of_mem member'))) (Sketch.line.inj same).2.1
  rw [bare, bare, modules]

/-- The sort that a sketch begins with tells nodes apart. -/
theorem Node.sketch_inj {node node' : Node} (sound : node.Sound) (sound' : node'.Sound)
    (same : node.sketch = node'.sketch) : node.bare = node'.bare := by
  cases node with
  | expression value =>
      cases node' with
      | expression value' => exact congrArg expression (Expression.sketch_inj sound sound' same)
      | _ => exact absurd same (value.sketch_ne (by decide))
  | returned keyword value =>
      cases node' with
      | expression value' => exact absurd same.symm (value'.sketch_ne (by decide))
      | returned keyword' value' =>
          exact congrArg Statement.node
            (@Statement.sketch_inj (.returned keyword value) (.returned keyword' value') sound
              sound' same)
      | _ => exact absurd (Sketch.line.inj same).1 (by decide)
  | «variable» definition =>
      cases node' with
      | expression value' => exact absurd same.symm (value'.sketch_ne (by decide))
      | «variable» definition' =>
          exact congrArg Node.variable (Variable.sketch_inj sound sound' same)
      | _ => exact absurd (Sketch.line.inj same).1 (by decide)
  | recovery token =>
      cases node' with
      | expression value' => exact absurd same.symm (value'.sketch_ne (by decide))
      | recovery token' =>
          exact congrArg Statement.node
            (@Statement.sketch_inj (.recovery token) (.recovery token') sound sound' same)
      | _ => exact absurd (Sketch.line.inj same).1 (by decide)
  | block body =>
      cases node' with
      | expression value' => exact absurd same.symm (value'.sketch_ne (by decide))
      | block body' => exact congrArg block (Block.sketch_inj sound sound' same)
      | _ => exact absurd (Sketch.line.inj same).1 (by decide)
  | parameter declared =>
      cases node' with
      | expression value' => exact absurd same.symm (value'.sketch_ne (by decide))
      | parameter declared' => exact congrArg parameter (Parameter.sketch_inj sound sound' same)
      | _ => exact absurd (Sketch.line.inj same).1 (by decide)
  | parameterList list =>
      cases node' with
      | expression value' => exact absurd same.symm (value'.sketch_ne (by decide))
      | parameterList list' =>
          exact congrArg parameterList (ParameterList.sketch_inj sound sound' same)
      | _ => exact absurd (Sketch.line.inj same).1 (by decide)
  | function declared =>
      cases node' with
      | expression value' => exact absurd same.symm (value'.sketch_ne (by decide))
      | function declared' =>
          exact congrArg function (FunctionDeclaration.sketch_inj sound sound' same)
      | _ => exact absurd (Sketch.line.inj same).1 (by decide)
  | module body =>
      cases node' with
      | expression value' => exact absurd same.symm (value'.sketch_ne (by decide))
      | module body' => exact congrArg module (Module.sketch_inj sound sound' same)
      | _ => exact absurd (Sketch.line.inj same).1 (by decide)
  | root whole =>
      cases node' with
      | expression value' => exact absurd same.symm (value'.sketch_ne (by decide))
      | root whole' => exact congrArg root (Root.sketch_inj sound sound' same)
      | _ => exact absurd (Sketch.line.inj same).1 (by decide)

/-- An outline shows what is left of a tree without its tokens, and nothing else. -/
theorem Node.outline_eq_iff {node node' : Node} (sound : node.Sound) (sound' : node'.Sound) :
    node.outline = node'.outline ↔ node.bare = node'.bare := by
  constructor
  · exact fun same => sketch_inj sound sound' ((drawn sound).print_inj (drawn sound') same)
  · intro same
    have sketches : node.sketch = node'.sketch := by
      rw [← node.sketch_bare, same, node'.sketch_bare]
    rw [outline, outline, (drawn sound).print, (drawn sound').print, sketches]

namespace Entry

/-- Trees of two texts have the same outline exactly when they are the same but for their tokens. -/
theorem parse_outlines {σ : Type} [Observer σ] {entry entry' : Entry} {text text' : String}
    {tokens tokens' : List Token} {sink sink' : Sink} {observed observed' : σ}
    {node node' : Node} (lexed : tokenize text = .ok tokens) (lexed' : tokenize text' = .ok tokens')
    (parsed : (entry.parse tokens sink observed).result = .ok node)
    (parsed' : (entry'.parse tokens' sink' observed').result = .ok node') :
    node.outline = node'.outline ↔ node.bare = node'.bare :=
  Node.outline_eq_iff (parse_decoded lexed parsed) (parse_decoded lexed' parsed')

/-- A bracket that is missing is a token that an outline does not show. -/
theorem parse_outlines_unclosed :
    let shown := "CallExpression\n  receiver:\n    Identifier\n      name: f\n" ++
      "  arguments:\n    Identifier\n      name: a\n    LiteralNumber\n      value: 1.5\n"
    ∃ tokens tokens' node node',
      tokenize "f(a, 1.50" = .ok tokens ∧ tokenize "f( a,1.5 )" = .ok tokens' ∧
      (Entry.expression.parse tokens (.collect []) ()).result = .ok node ∧
      (Entry.expression.parse tokens' (.collect []) ()).result = .ok node' ∧
      node.outline = shown ∧ node'.outline = shown ∧ node.bare = node'.bare := by
  intro shown
  have parses (text : String) (found : ((tokenize text).toOption.bind fun tokens =>
      (Entry.expression.parse tokens (.collect []) ()).result.toOption).any
        (fun node => node.outline = shown) = true) :
      ∃ tokens node, tokenize text = .ok tokens ∧
        (Entry.expression.parse tokens (.collect []) ()).result = .ok node ∧
          node.outline = shown := by
    cases lexed : tokenize text with
    | error error =>
        rw [lexed] at found
        cases found
    | ok tokens =>
        rw [lexed] at found
        change (Entry.expression.parse tokens (.collect []) ()).result.toOption.any
          (fun node => node.outline = shown) = true at found
        cases parsed : (Entry.expression.parse tokens (.collect []) ()).result with
        | error error =>
            rw [parsed] at found
            cases found
        | ok node =>
            rw [parsed] at found
            exact ⟨tokens, node, rfl, parsed, of_decide_eq_true found⟩
  obtain ⟨tokens, node, lexed, parsed, draws⟩ := parses "f(a, 1.50" (by decide +kernel)
  obtain ⟨tokens', node', lexed', parsed', draws'⟩ := parses "f( a,1.5 )" (by decide +kernel)
  exact ⟨tokens, tokens', node, node', lexed, lexed', parsed, parsed', draws, draws',
    (parse_outlines lexed lexed' parsed parsed').1 (draws.trans draws'.symm)⟩

end Entry

end FrontEnd
