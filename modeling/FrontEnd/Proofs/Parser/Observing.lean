/-
This file follows what an observer is told. At every place of a parse it knows the nodes of the
trees that are finished so far, each after its children, and no others.
-/

import FrontEnd.Proofs.Parser.Observers
import FrontEnd.Proofs.Tree.Postorder

namespace FrontEnd

namespace Parser

variable {σ ρ α β : Type} [Observer σ]

/-- A run leads from some finished trees to others when it tells the observer of the nodes that the
later trees have behind those of the earlier ones, and of no others. -/
def Finishes (trees trees' : List Node) (state next : State σ ρ) : Prop :=
  ∃ made : List Node, next.observed = made.foldl Observer.note state.observed ∧
    trees.flatMap Node.postorder ++ made = trees'.flatMap Node.postorder

/-- A run that tells the observer nothing finishes no tree. -/
theorem Finishes.refl (trees : List Node) {state next : State σ ρ}
    (same : next.observed = state.observed) : Finishes trees trees state next :=
  ⟨[], same, List.append_nil _⟩

/-- What two runs tell after each other they tell together. -/
theorem Finishes.trans {first second third : List Node} {state between next : State σ ρ}
    (start : Finishes first second state between) (finish : Finishes second third between next) :
    Finishes first third state next := by
  obtain ⟨made, told, trees⟩ := start
  obtain ⟨more, told', trees'⟩ := finish
  exact ⟨made ++ more, by rw [told', told, List.foldl_append],
    by rw [← List.append_assoc, trees, trees']⟩

/-- Trees that were finished before stay as they are. -/
theorem Finishes.after {trees trees' : List Node} {state next : State σ ρ}
    (finishes : Finishes trees trees' state next) (front : List Node) :
    Finishes (front ++ trees) (front ++ trees') state next := by
  obtain ⟨made, told, same⟩ := finishes
  exact ⟨made, told, by rw [List.flatMap_append, List.flatMap_append, List.append_assoc, same]⟩

/-- A node is finished when it is made of the trees that are its children. -/
theorem Finishes.make (node : Node) {state next : State σ ρ}
    (told : next.observed = Observer.note state.observed node) :
    Finishes node.children [node] state next :=
  ⟨[node], told, by rw [List.flatMap_singleton, node.postorder_eq]⟩

/-- A parser builds trees on others when every successful run leads from these to those. -/
def Builds (parser : Parser σ ρ α) (trees : List Node) (trees' : α → List Node) : Prop :=
  ∀ (state next : State σ ρ) (value : α), parser state = .ok value next →
    Finishes trees (trees' value) state next

section Combining

variable {parser : Parser σ ρ α} {rest : α → Parser σ ρ β} {trees : List Node}
  {trees' : α → List Node} {trees'' : β → List Node}

/-- A sequence builds on what its first part built. -/
theorem Builds.bind (builds : Builds parser trees trees')
    (buildsRest : ∀ value, Builds (rest value) (trees' value) trees'') :
    Builds (parser >>= rest) trees trees'' := by
  intro state next value ran
  obtain ⟨middle, between, first, second⟩ := bind_eq_ok.1 ran
  exact (builds _ _ _ first).trans (buildsRest _ _ _ _ second)

/-- A part of a sequence builds beside the trees of the parts before it. -/
theorem Builds.andThen (builds : Builds parser [] trees')
    (buildsRest : ∀ value, Builds (rest value) (trees ++ trees' value) trees'') :
    Builds (parser >>= rest) trees trees'' := by
  have beside : Builds parser trees fun value => trees ++ trees' value := by
    intro state next value ran
    have finishes := (builds state next value ran).after trees
    rwa [List.append_nil] at finishes
  exact beside.bind buildsRest

theorem builds_pure {value : α} (same : trees = trees' value) :
    Builds (pure value : Parser σ ρ α) trees trees' := by
  rintro state _ _ ⟨⟩
  exact same ▸ Finishes.refl trees rfl

/-- Making a node on the trees that are its children builds its tree. -/
theorem builds_make {node : α → Node} {value : α} (same : trees = (node value).children) :
    Builds (make node value : Parser σ ρ α) trees fun value => [node value] := by
  rintro state _ _ ⟨⟩
  exact same ▸ Finishes.make (node value) rfl

end Combining

section Steps

variable {trees : List Node}

/-- Looking at the cursor builds nothing. -/
theorem builds_look (view : TokenCursor → α) :
    Builds (fun state : State σ ρ => .ok (view state.cursor) state) trees fun _ => trees := by
  rintro state _ _ ⟨⟩
  exact .refl trees rfl

theorem builds_current : Builds (current : Parser σ ρ Token) trees fun _ => trees :=
  builds_look TokenCursor.current

theorem builds_cursor : Builds (cursor : Parser σ ρ TokenCursor) trees fun _ => trees :=
  builds_look id

theorem builds_hasNext : Builds (hasNext : Parser σ ρ Bool) trees fun _ => trees :=
  builds_look TokenCursor.hasNext

theorem builds_remaining : Builds (remaining : Parser σ ρ Nat) trees fun _ => trees :=
  builds_look TokenCursor.remaining

theorem builds_beforeClose (close : Bracket) :
    Builds (beforeClose close : Parser σ ρ Bool) trees fun _ => trees :=
  builds_look fun cursor => cursor.hasNext && cursor.current.kind != .bracket close

/-- Taking a token builds nothing, since tokens are no nodes. -/
theorem builds_eatWhere (wanted : Token → Bool) :
    Builds (eatWhere wanted : Parser σ ρ (Option Token)) trees fun _ => trees := by
  intro state next found ran
  unfold eatWhere at ran
  split at ran
  · split at ran <;> cases ran <;> exact .refl trees rfl
  · cases ran
    exact .refl trees rfl

theorem builds_eat (kind : TokenKind) :
    Builds (eat kind : Parser σ ρ (Option Token)) trees fun _ => trees :=
  builds_eatWhere _

theorem builds_eatOneOf (operators : List Operator) :
    Builds (eatOneOf operators : Parser σ ρ (Option Token)) trees fun _ => trees :=
  builds_eatWhere _

theorem builds_advance : Builds (advance : Parser σ ρ Token) trees fun _ => trees := by
  intro state next token ran
  unfold advance at ran
  split at ran
  · cases ran
    exact .refl trees rfl
  · cases ran

/-- The observer learns nothing of events. -/
theorem builds_note (event : Event) :
    Builds (note event : Parser σ ρ Unit) trees fun _ => trees := by
  rintro state _ _ ⟨⟩
  exact .refl trees rfl

variable [Receiver ρ]

/-- The observer learns nothing of reports, whatever the receiver answers. -/
theorem builds_report (diagnostic : Diagnostic) :
    Builds (report diagnostic : Parser σ ρ Unit) trees fun _ => trees := by
  intro state next value ran
  cases answer : Receiver.accept diagnostic state.sink with
  | error raised sink =>
      rw [report_of_error answer] at ran
      cases ran
  | ok _ sink =>
      rw [report_of_ok answer] at ran
      cases ran
      exact .refl trees rfl

/-- A placeholder is a token, and builds nothing. -/
theorem builds_recover (code : Code) (kind : TokenKind) (lexeme : String) :
    Builds (recover code kind lexeme : Parser σ ρ Token) trees fun _ => trees := by
  apply builds_current.bind
  intro found
  apply (builds_report _).bind
  intro _
  apply (builds_note _).bind
  intro _
  exact builds_pure rfl

theorem builds_operation (fixity : Fixity) (token : Token) :
    Builds (operation fixity token : Parser σ ρ Operation) trees fun _ => trees := by
  unfold operation
  cases token.operation? fixity with
  | some meaning => exact builds_pure rfl
  | none => exact (builds_report _).bind fun _ => builds_pure rfl

theorem builds_expectBracket (bracket : Bracket) :
    Builds (expectBracket bracket : Parser σ ρ Token) trees fun _ => trees := by
  apply (builds_eat _).bind
  intro found
  cases found with
  | some token => exact builds_pure rfl
  | none => exact builds_recover _ _ _

theorem builds_separator (close : Bracket) :
    Builds (separator close : Parser σ ρ Unit) trees fun _ => trees := by
  apply (builds_eat _).bind
  intro found
  cases found with
  | some comma => exact builds_pure rfl
  | none =>
      apply (builds_beforeClose _).bind
      intro more
      cases more with
      | false => exact builds_pure rfl
      | true => exact builds_current.bind fun token => builds_report _

theorem builds_passKeyword (keyword : Keyword) (code : Code) :
    Builds (passKeyword keyword code : Parser σ ρ Unit) trees fun _ => trees := by
  apply (builds_eat _).bind
  intro found
  cases found with
  | some token => exact builds_pure rfl
  | none => exact builds_current.bind fun token => builds_report _

theorem builds_numberValue (token : Token) :
    Builds (numberValue token : Parser σ ρ Binary64) trees fun _ => trees := by
  unfold numberValue
  cases Binary64.read? token.lexeme with
  | some value => exact builds_pure rfl
  | none => exact (builds_report _).bind fun _ => builds_pure rfl

end Steps

section Items

variable {item : Parser σ ρ α} {node : α → Node} (builds : Builds item [] fun value => [node value])

include builds

/-- By induction on the bound, the trees of the items stand side by side. -/
theorem Builds.itemsWithin (close : Bracket) (bound : Nat) :
    Builds (Parser.itemsWithin close item bound) [] fun values => values.map node := by
  induction bound with
  | zero => exact builds_pure rfl
  | succ bound inductionHypothesis =>
      apply (builds_beforeClose _).bind
      intro more
      cases more with
      | false => exact builds_pure rfl
      | true =>
          apply builds.andThen
          intro first
          apply inductionHypothesis.andThen
          intro rest
          exact builds_pure rfl

theorem Builds.items (close : Bracket) :
    Builds (Parser.items close item) [] fun values => values.map node :=
  builds_remaining.bind fun bound => builds.itemsWithin close bound

theorem Builds.listItems [Receiver ρ] :
    Builds (Parser.listItems item) [] fun values => values.map node := by
  refine Builds.items ?_ _
  apply builds.andThen
  intro value
  apply (builds_separator _).bind
  intro _
  exact builds_pure rfl

/-- An optional part builds one tree or none. -/
theorem Builds.optional (kind : TokenKind) :
    Builds (Parser.optional kind item) [] fun value => value.toList.map node := by
  apply (builds_eat _).bind
  intro found
  cases found with
  | none => exact builds_pure rfl
  | some token =>
      apply builds.andThen
      intro value
      exact builds_pure rfl

end Items

variable [Receiver ρ]

/-- A name builds its node, also when it is a placeholder. -/
theorem builds_identifier :
    Builds (identifier : Parser σ ρ Identifier) [] fun name => [name.node] := by
  apply (builds_eat _).bind
  intro found
  cases found with
  | some token => exact builds_make rfl
  | none =>
      apply builds_advance.bind
      intro token
      apply (builds_report _).bind
      intro _
      exact builds_make rfl

section Levels

variable {operand : Parser σ ρ Expression}
  (builds : Builds operand [] fun value => [.expression value])

include builds

/-- The left operand is a finished tree when the operator after it is seen, and becomes a part of
the next left operand. -/
theorem Builds.binaryWithin (operators : List Operator) (bound : Nat) (left : Expression) :
    Builds (Parser.binaryWithin operators operand bound left) [.expression left]
      fun value => [.expression value] := by
  induction bound generalizing left with
  | zero => exact builds_pure rfl
  | succ bound inductionHypothesis =>
      apply (builds_eatOneOf _).bind
      intro found
      cases found with
      | none => exact builds_pure rfl
      | some token =>
          apply (builds_operation _ _).bind
          intro meaning
          apply builds.andThen
          intro right
          apply Builds.bind (builds_make rfl)
          intro node
          exact inductionHypothesis node

theorem Builds.binary (operators : List Operator) :
    Builds (Parser.binary operators operand) [] fun value => [.expression value] := by
  apply builds.bind
  intro left
  apply builds_remaining.bind
  intro bound
  exact builds.binaryWithin operators bound left

/-- By induction on the ranks, each builds one tree since the tighter ones do. -/
theorem Builds.tower (operators : List (List Operator)) :
    Builds (Parser.tower operand operators) [] fun value => [.expression value] := by
  induction operators with
  | nil => exact builds
  | cons looser tighter inductionHypothesis => exact inductionHypothesis.binary looser

/-- By induction on the bound, the innermost operand is finished first. -/
theorem Builds.prefixedWithin (bound : Nat) :
    Builds (Parser.prefixedWithin operand bound) [] fun value => [.expression value] := by
  induction bound with
  | zero => exact builds
  | succ bound inductionHypothesis =>
      apply (builds_eatOneOf _).bind
      intro found
      cases found with
      | none => exact builds
      | some token =>
          apply (builds_operation _ _).bind
          intro meaning
          apply inductionHypothesis.bind
          intro inner
          exact builds_make rfl

theorem Builds.prefixed :
    Builds (Parser.prefixed operand) [] fun value => [.expression value] :=
  builds_remaining.bind fun bound => builds.prefixedWithin bound

/-- A sign behind an operand makes a node of the tree before it. -/
theorem Builds.postfixed :
    Builds (Parser.postfixed operand) [] fun value => [.expression value] := by
  apply builds.bind
  intro value
  apply builds_cursor.bind
  intro cursor
  split
  · apply builds_advance.bind
    intro token
    apply (builds_operation _ _).bind
    intro meaning
    exact builds_make rfl
  · exact builds_pure rfl

end Levels

/-- Every literal makes one node, also a number that is reported. -/
theorem builds_literal :
    Builds (literal : Parser σ ρ Expression) [] fun value => [.expression value] := by
  apply (builds_eat _).bind
  intro found
  cases found with
  | some token =>
      apply (builds_numberValue token).bind
      intro value
      exact builds_make rfl
  | none =>
      apply (builds_eat _).bind
      intro found
      cases found with
      | some token => exact builds_make rfl
      | none =>
          apply (builds_eat _).bind
          intro found
          cases found with
          | some token => exact builds_make rfl
          | none =>
              apply builds_identifier.bind
              intro name
              exact builds_pure rfl

section Inner

variable {expression : Parser σ ρ Expression}
  (builds : Builds expression [] fun value => [.expression value])

include builds

/-- A group makes a node of the tree inside it. -/
theorem Builds.primary :
    Builds (Parser.primary expression) [] fun value => [.expression value] := by
  apply (builds_eat _).bind
  intro found
  cases found with
  | none => exact builds_literal
  | some opening =>
      apply builds.bind
      intro content
      apply (builds_expectBracket _).bind
      intro close
      exact builds_make rfl

/-- By induction on the bound, each call takes its receiver and its arguments as the children of a
new node. -/
theorem Builds.callWithin (bound : Nat) (receiver : Expression) :
    Builds (Parser.callWithin expression bound receiver) [.expression receiver]
      fun value => [.expression value] := by
  induction bound generalizing receiver with
  | zero => exact builds_pure rfl
  | succ bound inductionHypothesis =>
      apply (builds_eat _).bind
      intro found
      cases found with
      | some opening =>
          apply builds.listItems.andThen
          intro arguments
          apply (builds_expectBracket _).bind
          intro close
          apply Builds.bind (builds_make rfl)
          intro node
          exact inductionHypothesis node
      | none =>
          apply (builds_eat _).bind
          intro found
          cases found with
          | none => exact builds_pure rfl
          | some dot =>
              apply builds_identifier.andThen
              intro name
              apply Builds.bind (builds_make rfl)
              intro node
              exact inductionHypothesis node

theorem Builds.call :
    Builds (Parser.call expression) [] fun value => [.expression value] := by
  apply builds.primary.bind
  intro receiver
  apply builds_remaining.bind
  intro bound
  exact builds.callWithin bound receiver

/-- A conditional makes a node of three trees that stand side by side. -/
theorem Builds.conditional :
    Builds (Parser.conditional expression) [] fun value => [.expression value] := by
  apply (builds_eat _).bind
  intro found
  cases found with
  | none => exact builds.call.postfixed.prefixed.tower levels
  | some keyword =>
      apply builds.bind
      intro condition
      apply (builds_passKeyword _ _).bind
      intro _
      apply builds.andThen
      intro consequent
      apply (builds_passKeyword _ _).bind
      intro _
      apply builds.andThen
      intro alternative
      exact builds_make rfl

end Inner

/-- By induction on the bound, an expression builds one tree since those inside it do. -/
theorem builds_expressionWithin (bound : Nat) :
    Builds (expressionWithin bound : Parser σ ρ Expression) [] fun value =>
      [.expression value] := by
  induction bound with
  | zero =>
      apply builds_identifier.bind
      intro name
      exact builds_pure rfl
  | succ bound inductionHypothesis => exact inductionHypothesis.conditional.binary [.equals]

theorem builds_expression :
    Builds (expression : Parser σ ρ Expression) [] fun value => [.expression value] :=
  builds_remaining.bind builds_expressionWithin

/-- A type builds its name, or nothing where it is missing. -/
theorem builds_typeName :
    Builds (typeName : Parser σ ρ (Option Identifier)) []
      fun type => type.toList.map Identifier.node :=
  builds_identifier.optional _

/-- A value builds its expression, or nothing where it is missing. -/
theorem builds_assigned :
    Builds (assigned : Parser σ ρ (Option Expression)) []
      fun value => value.toList.map Node.expression :=
  builds_expression.optional _

/-- A variable makes a node of its name, its type and its value. -/
theorem builds_binding (keyword : Token) :
    Builds (binding keyword : Parser σ ρ Variable) [] fun definition => [.variable definition] := by
  apply builds_identifier.bind
  intro name
  apply builds_typeName.andThen
  intro type
  apply builds_assigned.andThen
  intro value
  exact builds_make rfl

/-- A statement makes one node, also for a token that starts none. -/
theorem builds_statement :
    Builds (statement : Parser σ ρ Statement) [] fun value => [value.node] := by
  apply (builds_eat _).bind
  intro found
  cases found with
  | some keyword =>
      apply builds_expression.bind
      intro value
      exact builds_make rfl
  | none =>
      apply (builds_eat _).bind
      intro found
      cases found with
      | some keyword =>
          apply (builds_binding keyword).bind
          intro definition
          exact builds_pure rfl
      | none =>
          apply (builds_eatWhere _).bind
          intro found
          cases found with
          | some token =>
              apply (builds_report _).bind
              intro _
              exact builds_make rfl
          | none =>
              apply builds_expression.bind
              intro value
              exact builds_pure rfl

/-- A block makes a node of the trees of its statements. -/
theorem builds_block : Builds (block : Parser σ ρ Block) [] fun body => [.block body] := by
  apply (builds_expectBracket _).bind
  intro opening
  apply (builds_statement.items _).bind
  intro statements
  apply (builds_expectBracket _).bind
  intro close
  exact builds_make rfl

theorem builds_parameter :
    Builds (parameter : Parser σ ρ Parameter) [] fun declared => [.parameter declared] := by
  apply builds_identifier.bind
  intro name
  apply builds_typeName.andThen
  intro type
  apply builds_assigned.andThen
  intro value
  exact builds_make rfl

theorem builds_parameterList :
    Builds (parameterList : Parser σ ρ ParameterList) [] fun list => [.parameterList list] := by
  apply (builds_expectBracket _).bind
  intro opening
  apply builds_parameter.listItems.bind
  intro parameters
  apply (builds_expectBracket _).bind
  intro close
  exact builds_make rfl

/-- A function makes a node of its name, its parameters, its result and its body. -/
theorem builds_function (keyword : Token) :
    Builds (function keyword : Parser σ ρ FunctionDeclaration) []
      fun declared => [.function declared] := by
  apply builds_identifier.bind
  intro name
  apply builds_parameterList.andThen
  intro parameters
  apply builds_typeName.andThen
  intro result
  apply (builds_block.optional _).andThen
  intro body
  exact builds_make rfl

/-- By induction on the bound, the declarations stand side by side. -/
theorem builds_declarationsWithin (bound : Nat) :
    Builds (declarationsWithin bound : Parser σ ρ (List Declaration)) []
      fun declarations => declarations.map Declaration.node := by
  induction bound with
  | zero => exact builds_pure rfl
  | succ bound inductionHypothesis =>
      apply builds_hasNext.bind
      intro more
      cases more with
      | false => exact builds_pure rfl
      | true =>
          apply (builds_eat _).bind
          intro found
          cases found with
          | some keyword =>
              apply (builds_function keyword).bind
              intro first
              apply inductionHypothesis.andThen
              intro rest
              exact builds_pure rfl
          | none =>
              apply (builds_eat _).bind
              intro found
              cases found with
              | some keyword =>
                  apply (builds_binding keyword).bind
                  intro first
                  apply inductionHypothesis.andThen
                  intro rest
                  exact builds_pure rfl
              | none =>
                  apply builds_current.bind
                  intro token
                  apply (builds_report _).bind
                  intro _
                  exact builds_pure rfl

theorem builds_module : Builds (module : Parser σ ρ Module) [] fun body => [.module body] := by
  apply builds_current.bind
  intro boundary
  apply builds_remaining.bind
  intro bound
  apply (builds_declarationsWithin bound).bind
  intro declarations
  exact builds_make rfl

/-- A root makes a node of its only module. -/
theorem builds_root : Builds (root : Parser σ ρ Root) [] fun whole => [.root whole] := by
  apply builds_module.bind
  intro body
  apply (builds_note _).bind
  intro _
  apply builds_cursor.bind
  intro cursor
  exact builds_make rfl

/-- Every entry point builds the one tree that it gives. -/
theorem builds_entry (entry : Entry) :
    Builds (entry.parser : Parser σ ρ Node) [] fun node => [node] := by
  cases entry with
  | file => exact builds_root.bind fun whole => builds_pure rfl
  | expression => exact builds_expression.bind fun value => builds_pure rfl
  | statement => exact builds_statement.bind fun value => builds_pure rfl
  | identifier => exact builds_identifier.bind fun name => builds_pure rfl

end Parser

/-- A record keeps what it is told in order. -/
theorem Record.foldl_note (record : Record) (nodes : List Node) :
    nodes.foldl Observer.note record = ⟨record.made ++ nodes⟩ := by
  induction nodes generalizing record with
  | nil => simp
  | cons first rest inductionHypothesis =>
      rw [List.foldl_cons, inductionHypothesis]
      exact congrArg Record.mk (List.append_assoc record.made [first] rest)

/-- The owner of a lent observer learns everything that this one is told. -/
theorem Lent.foldl_note {σ : Type} [Observer σ] (lent : Lent σ) (nodes : List Node) :
    nodes.foldl Observer.note lent = ⟨nodes.foldl Observer.note lent.owner⟩ := by
  induction nodes generalizing lent with
  | nil => rfl
  | cons first rest inductionHypothesis => exact inductionHypothesis _

namespace Entry

variable {σ ρ : Type} [Observer σ] [Receiver ρ]

/-- A successful run tells the observer of the nodes of its tree, each after its children. -/
theorem parse_told (entry : Entry) {tokens : List Token} {sink : ρ} {observed : σ} {node : Node}
    (ran : (entry.parse tokens sink observed).result = .ok node) :
    (entry.parse tokens sink observed).state.observed =
      node.postorder.foldl Observer.note observed := by
  cases outcome : entry.parse tokens sink observed with
  | error error next =>
      rw [outcome] at ran
      cases ran
  | ok value next =>
      rw [outcome] at ran
      cases ran
      obtain ⟨made, told, built⟩ := Parser.builds_entry entry _ _ _ outcome
      have all : made = node.postorder := by simpa using built
      exact all ▸ told

/-- A record of the nodes that a parse makes, kept by itself or lent to the parse, changes nothing
about the parse. When there is a tree, it holds the nodes of the tree, each once and after its
children, and no others. -/
theorem parse_recorded (entry : Entry) (tokens : List Token) (sink : ρ) :
    let plain := entry.parse tokens sink ()
    let kept := entry.parse tokens sink (Record.mk [])
    let lent := entry.parse tokens sink (Lent.mk (Record.mk []))
    kept.Agrees plain ∧ lent.Agrees plain ∧
      match plain.result with
      | .ok node => kept.state.observed.made = node.postorder ∧
          lent.state.observed.owner.made = node.postorder ∧ node.postorder.Perm node.preorder
      | .error _ => True := by
  intro plain kept lent
  have keptAgrees : kept.Agrees plain := entry.parse_underObservers tokens sink () _
  have lentAgrees : lent.Agrees plain := entry.parse_underObservers tokens sink () _
  refine ⟨keptAgrees, lentAgrees, ?_⟩
  split
  · next node found =>
      have keptTold := entry.parse_told (keptAgrees.result.trans found)
      have lentTold := entry.parse_told (lentAgrees.result.trans found)
      rw [Record.foldl_note] at keptTold
      rw [Lent.foldl_note, Record.foldl_note] at lentTold
      refine ⟨?_, ?_, node.postorder_perm⟩
      · exact congrArg Record.made keptTold
      · exact congrArg (fun lent : Lent Record => lent.owner.made) lentTold
  · trivial

/-- The left sum is made before the name on the right, and the whole sum last. -/
example :
    let tokens := [⟨0, .identifier, "a", false⟩, ⟨1, .operator .plus, "+", false⟩,
      ⟨2, .identifier, "b", false⟩, ⟨3, .operator .plus, "+", false⟩, ⟨4, .identifier, "c", false⟩]
    let outcome := expression.parse tokens .failFast (Lent.mk (Record.mk []))
    outcome.state.observed.owner.made.map Node.sort =
      ["Identifier", "Identifier", "BinaryExpression", "Identifier", "BinaryExpression"] := by
  decide +kernel

end Entry

end FrontEnd
