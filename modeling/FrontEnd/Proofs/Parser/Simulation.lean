/-
This file compares two runs of the grammar. A relation between parsers that the primitive steps
satisfy and that sequencing keeps is satisfied by every rule.
-/

import FrontEnd.Parser.Entry
import FrontEnd.Proofs.Tree.Relocation

namespace FrontEnd

/-- A diagnostic moves with the token that it is about. -/
def Diagnostic.relocate (move : Nat → Nat) (diagnostic : Diagnostic) : Diagnostic :=
  { diagnostic with offset := move diagnostic.offset }

/-- The events about tokens move with them. -/
def Event.relocate (move : Nat → Nat) : Event → Event
  | .tokenized source count => .tokenized source count
  | .reported diagnostic => .reported (diagnostic.relocate move)
  | .synthesised code offset lexeme => .synthesised code (move offset) lexeme
  | .parsedModule declarations => .parsedModule declarations

/-- A cursor stays before the same token when all its tokens move. -/
def TokenCursor.relocate (move : Nat → Nat) (cursor : TokenCursor) : TokenCursor where
  passed := cursor.passed.map (Token.relocate move)
  rest := cursor.rest.map (Token.relocate move)
  marker := cursor.marker.relocate move

/-- Moving nothing leaves an event as it is. -/
@[simp] theorem Event.relocate_id : Event.relocate id = id := by
  funext event
  cases event <;> rfl

/-- Moving nothing leaves a cursor as it is. -/
@[simp] theorem TokenCursor.relocate_id : TokenCursor.relocate id = id := by
  funext cursor
  simp [relocate]

section Cursors

variable (move : Nat → Nat) (cursor : TokenCursor)

/-- The current token moves with the others. -/
@[simp] theorem TokenCursor.relocate_current :
    (cursor.relocate move).current = cursor.current.relocate move := by
  obtain ⟨passed, rest, marker⟩ := cursor
  cases rest <;> rfl

@[simp] theorem TokenCursor.relocate_following :
    (cursor.relocate move).following = cursor.following.relocate move := by
  obtain ⟨passed, rest, marker⟩ := cursor
  match rest with
  | [] | [_] | _ :: _ :: _ => rfl

/-- As many tokens remain. -/
@[simp] theorem TokenCursor.relocate_remaining :
    (cursor.relocate move).remaining = cursor.remaining := by
  simp [relocate, remaining]

/-- A relocated cursor steps over the relocated token. -/
theorem TokenCursor.relocate_step? :
    (cursor.relocate move).step? =
      cursor.step?.map fun (token, next) => (token.relocate move, next.relocate move) := by
  obtain ⟨passed, rest, marker⟩ := cursor
  cases rest with
  | nil => rfl
  | cons token rest =>
      by_cases ends : token.isEof = true <;> simp [relocate, step?, ends]

/-- No token becomes an end marker when it moves. -/
@[simp] theorem TokenCursor.relocate_hasNext :
    (cursor.relocate move).hasNext = cursor.hasNext := by
  simp [hasNext, relocate_step?]

end Cursors

/-- A simulation relates parsers that give related values, where the image of a value is the
value with its tokens moved. -/
structure Simulation (move : Nat → Nat) (σ τ ρ : Type) [Observer σ] [Observer τ]
    [Receiver ρ] where
  Rel {α β : Type} : (α → β) → Parser σ ρ α → Parser τ ρ β → Prop
  pure {α β : Type} (image : α → β) (value : α) :
    Rel image (Pure.pure value) (Pure.pure (image value))
  bind {α α' β β' : Type} {image : α → α'} {image' : β → β'} {first : Parser σ ρ α}
    {first' : Parser τ ρ α'} {rest : α → Parser σ ρ β} {rest' : α' → Parser τ ρ β'} :
    Rel image first first' → (∀ value, Rel image' (rest value) (rest' (image value))) →
      Rel image' (first >>= rest) (first' >>= rest')
  look {α β : Type} {image : α → β} {view : TokenCursor → α} {view' : TokenCursor → β} :
    (∀ cursor, view' (cursor.relocate move) = image (view cursor)) →
      Rel image (fun state => .ok (view state.cursor) state)
        (fun state => .ok (view' state.cursor) state)
  advance : Rel (Token.relocate move) Parser.advance Parser.advance
  eatWhere {wanted : Token → Bool} :
    (∀ token, wanted (token.relocate move) = wanted token) →
      Rel (Option.map (Token.relocate move)) (Parser.eatWhere wanted) (Parser.eatWhere wanted)
  note (event : Event) : Rel id (Parser.note event) (Parser.note (event.relocate move))
  report (diagnostic : Diagnostic) :
    Rel id (Parser.report diagnostic) (Parser.report (diagnostic.relocate move))
  make {α β : Type} {image : α → β} {node : α → Node} {node' : β → Node} :
    (∀ value, node' (image value) = (node value).relocate move) →
      ∀ value, Rel image (Parser.make node value) (Parser.make node' (image value))

namespace Simulation

open FrontEnd.Parser

variable {move : Nat → Nat} {σ τ ρ : Type} [Observer σ] [Observer τ] [Receiver ρ]
variable (simulation : Simulation move σ τ ρ)

include simulation

theorem current : simulation.Rel (Token.relocate move) Parser.current Parser.current := by
  have moved : ∀ cursor : TokenCursor,
      (cursor.relocate move).current = cursor.current.relocate move := by simp
  exact simulation.look moved

theorem cursor : simulation.Rel (TokenCursor.relocate move) Parser.cursor Parser.cursor := by
  have moved : ∀ cursor : TokenCursor, id (cursor.relocate move) = (id cursor).relocate move :=
    fun _ => rfl
  exact simulation.look moved

theorem hasNext : simulation.Rel id Parser.hasNext Parser.hasNext := by
  have moved : ∀ cursor : TokenCursor, (cursor.relocate move).hasNext = id cursor.hasNext := by
    simp
  exact simulation.look moved

theorem remaining : simulation.Rel id Parser.remaining Parser.remaining := by
  have moved : ∀ cursor : TokenCursor,
      (cursor.relocate move).remaining = id cursor.remaining := by simp
  exact simulation.look moved

/-- Whether a list goes on depends on kinds only. -/
theorem beforeClose (close : Bracket) :
    simulation.Rel id (Parser.beforeClose close) (Parser.beforeClose close) := by
  let view (cursor : TokenCursor) : Bool :=
    cursor.hasNext && cursor.current.kind != .bracket close
  have moved : ∀ cursor : TokenCursor, view (cursor.relocate move) = id (view cursor) := by
    simp [view]
  exact simulation.look moved

/-- A moved token has the kind that it had. -/
theorem eat (kind : TokenKind) :
    simulation.Rel (Option.map (Token.relocate move)) (Parser.eat kind) (Parser.eat kind) :=
  simulation.eatWhere fun _ => rfl

/-- A moved token is the operator that it was. -/
theorem eatOneOf (operators : List Operator) :
    simulation.Rel (Option.map (Token.relocate move)) (Parser.eatOneOf operators)
      (Parser.eatOneOf operators) :=
  simulation.eatWhere fun _ => rfl

/-- The placeholder for a missing token moves with the token at its place. -/
theorem recover (code : Code) (kind : TokenKind) (lexeme : String) :
    simulation.Rel (Token.relocate move) (Parser.recover code kind lexeme)
      (Parser.recover code kind lexeme) := by
  apply simulation.bind simulation.current
  intro found
  apply simulation.bind (simulation.report _)
  intro _
  apply simulation.bind (simulation.note _)
  intro _
  exact simulation.pure _ _

/-- The meaning of an operator is the same at every offset. -/
theorem operation (fixity : Fixity) (token : Token) :
    simulation.Rel id (Parser.operation fixity token)
      (Parser.operation fixity (token.relocate move)) := by
  unfold Parser.operation
  rw [Token.relocate_operation?]
  cases token.operation? fixity with
  | some meaning => exact simulation.pure id meaning
  | none =>
      apply simulation.bind (simulation.report _)
      intro _
      exact simulation.pure id _

/-- A bracket is found, or missed, in both runs. -/
theorem expectBracket (bracket : Bracket) :
    simulation.Rel (Token.relocate move) (Parser.expectBracket bracket)
      (Parser.expectBracket bracket) := by
  apply simulation.bind (simulation.eat _)
  intro found
  cases found with
  | some token => exact simulation.pure _ _
  | none => exact simulation.recover _ _ _

/-- Both runs find the comma, or report that it is missing, or are at the end of a list. -/
theorem separator (close : Bracket) :
    simulation.Rel id (Parser.separator close) (Parser.separator close) := by
  apply simulation.bind (simulation.eat _)
  intro found
  cases found with
  | some token => exact simulation.pure id _
  | none =>
      apply simulation.bind (simulation.beforeClose _)
      intro more
      cases more with
      | false => exact simulation.pure id _
      | true => exact simulation.bind simulation.current fun token => simulation.report _

/-- By induction on the bound, items of related parsers are related one by one. -/
theorem itemsWithin {α β : Type} {image : α → β} {item : Parser σ ρ α} {item' : Parser τ ρ β}
    (close : Bracket) (related : simulation.Rel image item item') (bound : Nat) :
    simulation.Rel (List.map image) (Parser.itemsWithin close item bound)
      (Parser.itemsWithin close item' bound) := by
  induction bound with
  | zero => exact simulation.pure _ _
  | succ bound inductionHypothesis =>
      apply simulation.bind (simulation.beforeClose _)
      intro more
      cases more with
      | false => exact simulation.pure _ _
      | true =>
          apply simulation.bind related
          intro first
          apply simulation.bind inductionHypothesis
          intro rest
          exact simulation.pure (List.map image) (first :: rest)

/-- As many tokens remain in both runs, so their bounds are the same. -/
theorem items {α β : Type} {image : α → β} {item : Parser σ ρ α} {item' : Parser τ ρ β}
    (close : Bracket) (related : simulation.Rel image item item') :
    simulation.Rel (List.map image) (Parser.items close item) (Parser.items close item') :=
  simulation.bind simulation.remaining fun bound => simulation.itemsWithin close related bound

/-- An item with the comma after it is related as the item is. -/
theorem listItems {α β : Type} {image : α → β} {item : Parser σ ρ α} {item' : Parser τ ρ β}
    (related : simulation.Rel image item item') :
    simulation.Rel (List.map image) (Parser.listItems item) (Parser.listItems item') := by
  apply simulation.items _
  apply simulation.bind related
  intro value
  apply simulation.bind (simulation.separator _)
  intro _
  exact simulation.pure _ _

/-- What follows an optional token is parsed in both runs or in neither. -/
theorem optional {α β : Type} {image : α → β} {item : Parser σ ρ α} {item' : Parser τ ρ β}
    (kind : TokenKind) (related : simulation.Rel image item item') :
    simulation.Rel (Option.map image) (Parser.optional kind item)
      (Parser.optional kind item') := by
  apply simulation.bind (simulation.eat _)
  intro found
  cases found with
  | none => exact simulation.pure _ _
  | some token =>
      apply simulation.bind related
      intro value
      exact simulation.pure (Option.map image) (some value)

/-- The node of a moved name is the moved node. -/
theorem makeIdentifier (name : Identifier) :
    simulation.Rel (Identifier.relocate move) (Parser.make Identifier.node name)
      (Parser.make Identifier.node (name.relocate move)) := by
  have moved : ∀ name : Identifier, (name.relocate move).node = name.node.relocate move :=
    fun _ => rfl
  exact simulation.make moved name

/-- A missing name is missing in both runs, and its placeholders are related. -/
theorem identifier :
    simulation.Rel (Identifier.relocate move) Parser.identifier Parser.identifier := by
  apply simulation.bind (simulation.eat _)
  intro found
  cases found with
  | some token => exact simulation.makeIdentifier ⟨token⟩
  | none =>
      apply simulation.bind simulation.advance
      intro token
      apply simulation.bind (simulation.report _)
      intro _
      exact simulation.makeIdentifier ⟨token.toPlaceholder⟩

/-- The node of a moved expression is the moved node. -/
theorem makeExpression (value : Expression) :
    simulation.Rel (Expression.relocate move) (Parser.makeExpression value)
      (Parser.makeExpression (value.relocate move)) := by
  have moved : ∀ value : Expression,
      Node.expression (value.relocate move) = (Node.expression value).relocate move :=
    fun _ => rfl
  exact simulation.make moved value

section Levels

variable {operand : Parser σ ρ Expression} {operand' : Parser τ ρ Expression}
variable (related : simulation.Rel (Expression.relocate move) operand operand')

include related

/-- By induction on the bound, a chain goes on in both runs or ends in both. -/
theorem binaryWithin (operators : List Operator) (bound : Nat) (left : Expression) :
    simulation.Rel (Expression.relocate move)
      (Parser.binaryWithin operators operand bound left)
      (Parser.binaryWithin operators operand' bound (left.relocate move)) := by
  induction bound generalizing left with
  | zero => exact simulation.pure _ _
  | succ bound inductionHypothesis =>
      apply simulation.bind (simulation.eatOneOf _)
      intro found
      cases found with
      | none => exact simulation.pure _ _
      | some token =>
          apply simulation.bind (simulation.operation _ token)
          intro meaning
          apply simulation.bind related
          intro right
          refine simulation.bind (simulation.makeExpression (.binary left meaning token right))
            fun node => ?_
          exact inductionHypothesis node

/-- As many operators can follow in both runs as tokens remain. -/
theorem binary (operators : List Operator) :
    simulation.Rel (Expression.relocate move) (Parser.binary operators operand)
      (Parser.binary operators operand') := by
  apply simulation.bind related
  intro left
  apply simulation.bind simulation.remaining
  intro bound
  exact simulation.binaryWithin related operators bound left

/-- By induction on the ranks, each is related because the tighter ones are. -/
theorem tower (operators : List (List Operator)) :
    simulation.Rel (Expression.relocate move) (Parser.tower operand operators)
      (Parser.tower operand' operators) := by
  induction operators with
  | nil => exact related
  | cons looser tighter inductionHypothesis => exact simulation.binary inductionHypothesis looser

/-- By induction on the bound, both runs nest as many signs. -/
theorem prefixedWithin (bound : Nat) :
    simulation.Rel (Expression.relocate move) (Parser.prefixedWithin operand bound)
      (Parser.prefixedWithin operand' bound) := by
  induction bound with
  | zero => exact related
  | succ bound inductionHypothesis =>
      apply simulation.bind (simulation.eatOneOf _)
      intro found
      cases found with
      | none => exact related
      | some token =>
          apply simulation.bind (simulation.operation _ token)
          intro meaning
          apply simulation.bind inductionHypothesis
          intro inner
          exact simulation.makeExpression (.prefixed meaning token inner)

/-- As many signs can nest in both runs as tokens remain. -/
theorem prefixed :
    simulation.Rel (Expression.relocate move) (Parser.prefixed operand)
      (Parser.prefixed operand') :=
  simulation.bind simulation.remaining fun bound => simulation.prefixedWithin related bound

/-- A sign belongs to its operand by its kind and the kind of the next token. -/
theorem postfixed :
    simulation.Rel (Expression.relocate move) (Parser.postfixed operand)
      (Parser.postfixed operand') := by
  apply simulation.bind related
  intro value
  apply simulation.bind simulation.cursor
  intro place
  have same : closesOperand (place.relocate move) = closesOperand place := by
    simp [closesOperand]
  rw [same]
  cases closesOperand place with
  | false => exact simulation.pure _ _
  | true =>
      apply simulation.bind simulation.advance
      intro token
      apply simulation.bind (simulation.operation _ token)
      intro meaning
      exact simulation.makeExpression (.postfixed value meaning token)

end Levels

/-- A number has the same value at every offset, or is reported in both runs. -/
theorem numberValue (token : Token) :
    simulation.Rel id (Parser.numberValue token)
      (Parser.numberValue (token.relocate move)) := by
  unfold Parser.numberValue
  rw [Token.relocate_lexeme]
  cases Binary64.read? token.lexeme with
  | some value => exact simulation.pure id value
  | none =>
      apply simulation.bind (simulation.report _)
      intro _
      exact simulation.pure id _

/-- The value of a literal depends on its lexeme only. -/
theorem literal :
    simulation.Rel (Expression.relocate move) Parser.literal Parser.literal := by
  apply simulation.bind (simulation.eat _)
  intro found
  cases found with
  | some token =>
      apply simulation.bind (simulation.numberValue token)
      intro value
      exact simulation.makeExpression (.number token value)
  | none =>
      apply simulation.bind (simulation.eat _)
      intro found
      cases found with
      | some token => exact simulation.makeExpression (.boolean token (token.lexeme = "true"))
      | none =>
          apply simulation.bind (simulation.eat _)
          intro found
          cases found with
          | some token =>
              exact simulation.makeExpression (.string token (stringContents token.lexeme))
          | none =>
              apply simulation.bind simulation.identifier
              intro name
              exact simulation.pure (Expression.relocate move) (.identifier name)

/-- A missing keyword is reported in both runs, at places that correspond. -/
theorem passKeyword (keyword : Keyword) (code : Code) :
    simulation.Rel id (Parser.passKeyword keyword code) (Parser.passKeyword keyword code) := by
  apply simulation.bind (simulation.eat _)
  intro found
  cases found with
  | some token => exact simulation.pure id _
  | none => exact simulation.bind simulation.current fun token => simulation.report _

section Inner

variable {inner : Parser σ ρ Expression} {inner' : Parser τ ρ Expression}
variable (related : simulation.Rel (Expression.relocate move) inner inner')

include related

/-- A group is opened in both runs or in neither. -/
theorem primary :
    simulation.Rel (Expression.relocate move) (Parser.primary inner)
      (Parser.primary inner') := by
  apply simulation.bind (simulation.eat _)
  intro found
  cases found with
  | none => exact simulation.literal
  | some opening =>
      apply simulation.bind related
      intro content
      apply simulation.bind (simulation.expectBracket _)
      intro close
      exact simulation.makeExpression (.group opening content close)

/-- By induction on the bound, calls and properties follow in both runs or in neither. -/
theorem callWithin (bound : Nat) (receiver : Expression) :
    simulation.Rel (Expression.relocate move) (Parser.callWithin inner bound receiver)
      (Parser.callWithin inner' bound (receiver.relocate move)) := by
  induction bound generalizing receiver with
  | zero => exact simulation.pure _ _
  | succ bound inductionHypothesis =>
      apply simulation.bind (simulation.eat _)
      intro found
      cases found with
      | some token =>
          apply simulation.bind (simulation.listItems related)
          intro arguments
          apply simulation.bind (simulation.expectBracket _)
          intro close
          have made := simulation.makeExpression (.call receiver arguments close)
          rw [Expression.relocate, Expression.relocateAll_eq_map] at made
          exact simulation.bind made fun node => inductionHypothesis node
      | none =>
          apply simulation.bind (simulation.eat _)
          intro found
          cases found with
          | none => exact simulation.pure _ _
          | some token =>
              apply simulation.bind simulation.identifier
              intro name
              refine simulation.bind (simulation.makeExpression (.property receiver name))
                fun node => ?_
              exact inductionHypothesis node

/-- A receiver and what follows it are related part by part. -/
theorem call :
    simulation.Rel (Expression.relocate move) (Parser.call inner) (Parser.call inner') := by
  apply simulation.bind (simulation.primary related)
  intro receiver
  apply simulation.bind simulation.remaining
  intro bound
  exact simulation.callWithin related bound receiver

/-- The three parts of a conditional are expressions of their own. -/
theorem conditional :
    simulation.Rel (Expression.relocate move) (Parser.conditional inner)
      (Parser.conditional inner') := by
  apply simulation.bind (simulation.eat _)
  intro found
  cases found with
  | none =>
      exact simulation.tower
        (simulation.prefixed (simulation.postfixed (simulation.call related))) levels
  | some keyword =>
      apply simulation.bind related
      intro condition
      apply simulation.bind (simulation.passKeyword _ _)
      intro _
      apply simulation.bind related
      intro consequent
      apply simulation.bind (simulation.passKeyword _ _)
      intro _
      apply simulation.bind related
      intro alternative
      exact simulation.makeExpression
        (.conditional keyword condition consequent alternative)

/-- An assignment is a chain like the others. -/
theorem assignment :
    simulation.Rel (Expression.relocate move) (Parser.assignment inner)
      (Parser.assignment inner') :=
  simulation.binary (simulation.conditional related) [.equals]

end Inner

/-- By induction on the bound, an expression is related since those inside it are. -/
theorem expressionWithin (bound : Nat) :
    simulation.Rel (Expression.relocate move) (Parser.expressionWithin bound)
      (Parser.expressionWithin bound) := by
  induction bound with
  | zero =>
      apply simulation.bind simulation.identifier
      intro name
      exact simulation.pure (Expression.relocate move) (.identifier name)
  | succ bound inductionHypothesis => exact simulation.assignment inductionHypothesis

/-- As deep expressions are possible in both runs as tokens remain. -/
theorem expression :
    simulation.Rel (Expression.relocate move) Parser.expression Parser.expression :=
  simulation.bind simulation.remaining fun bound => simulation.expressionWithin bound

/-- A type follows its colon in both runs or is missing in both. -/
theorem typeName :
    simulation.Rel (Option.map (Identifier.relocate move)) Parser.typeName Parser.typeName :=
  simulation.optional _ simulation.identifier

/-- A value follows its sign in both runs or is missing in both. -/
theorem assigned :
    simulation.Rel (Option.map (Expression.relocate move)) Parser.assigned Parser.assigned :=
  simulation.optional _ simulation.expression

/-- A variable keeps the keyword before it, which has moved too. -/
theorem binding (keyword : Token) :
    simulation.Rel (Variable.relocate move) (Parser.binding keyword)
      (Parser.binding (keyword.relocate move)) := by
  have moved : ∀ definition : Variable,
      Node.variable (definition.relocate move) = (Node.variable definition).relocate move :=
    fun _ => rfl
  apply simulation.bind simulation.identifier
  intro name
  apply simulation.bind simulation.typeName
  intro type
  apply simulation.bind simulation.assigned
  intro value
  exact simulation.make moved ⟨keyword, name, type, value⟩

/-- The node of a moved statement is the moved node. -/
theorem makeStatement (value : Statement) :
    simulation.Rel (Statement.relocate move) (Parser.make Statement.node value)
      (Parser.make Statement.node (value.relocate move)) := by
  have moved : ∀ value : Statement, (value.relocate move).node = value.node.relocate move := by
    intro value
    cases value <;> rfl
  exact simulation.make moved value

/-- The kind of its first token decides about a statement, in both runs alike. -/
theorem statement :
    simulation.Rel (Statement.relocate move) Parser.statement Parser.statement := by
  apply simulation.bind (simulation.eat _)
  intro found
  cases found with
  | some keyword =>
      apply simulation.bind simulation.expression
      intro value
      exact simulation.makeStatement (.returned keyword value)
  | none =>
      apply simulation.bind (simulation.eat _)
      intro found
      cases found with
      | some keyword =>
          apply simulation.bind (simulation.binding keyword)
          intro definition
          exact simulation.pure (Statement.relocate move) (.variable definition)
      | none =>
          apply simulation.bind (simulation.eatWhere fun _ => rfl)
          intro found
          cases found with
          | some token =>
              apply simulation.bind (simulation.report _)
              intro _
              exact simulation.makeStatement (.recovery token.toPlaceholder)
          | none =>
              apply simulation.bind simulation.expression
              intro value
              exact simulation.pure (Statement.relocate move) (.expression value)

/-- A block is related as its brackets and its statements are. -/
theorem block : simulation.Rel (Block.relocate move) Parser.block Parser.block := by
  have moved : ∀ block : Block,
      Node.block (block.relocate move) = (Node.block block).relocate move := fun _ => rfl
  apply simulation.bind (simulation.expectBracket _)
  intro opening
  apply simulation.bind (simulation.items _ simulation.statement)
  intro statements
  apply simulation.bind (simulation.expectBracket _)
  intro close
  exact simulation.make moved ⟨opening, statements, close⟩

theorem parameter :
    simulation.Rel (Parameter.relocate move) Parser.parameter Parser.parameter := by
  have moved : ∀ parameter : Parameter,
      Node.parameter (parameter.relocate move) = (Node.parameter parameter).relocate move :=
    fun _ => rfl
  apply simulation.bind simulation.identifier
  intro name
  apply simulation.bind simulation.typeName
  intro type
  apply simulation.bind simulation.assigned
  intro default
  exact simulation.make moved ⟨name, type, default⟩

/-- A list of parameters is related as its brackets and its parameters are. -/
theorem parameterList :
    simulation.Rel (ParameterList.relocate move) Parser.parameterList
      Parser.parameterList := by
  have moved : ∀ list : ParameterList,
      Node.parameterList (list.relocate move) = (Node.parameterList list).relocate move :=
    fun _ => rfl
  apply simulation.bind (simulation.expectBracket _)
  intro opening
  apply simulation.bind (simulation.listItems simulation.parameter)
  intro parameters
  apply simulation.bind (simulation.expectBracket _)
  intro close
  exact simulation.make moved ⟨opening, parameters, close⟩

/-- A function keeps the keyword before it, which has moved too. -/
theorem function (keyword : Token) :
    simulation.Rel (FunctionDeclaration.relocate move) (Parser.function keyword)
      (Parser.function (keyword.relocate move)) := by
  have moved : ∀ declared : FunctionDeclaration,
      Node.function (declared.relocate move) = (Node.function declared).relocate move :=
    fun _ => rfl
  apply simulation.bind simulation.identifier
  intro name
  apply simulation.bind simulation.parameterList
  intro parameters
  apply simulation.bind simulation.typeName
  intro result
  apply simulation.bind (simulation.optional _ simulation.block)
  intro body
  exact simulation.make moved ⟨keyword, name, parameters, result, body⟩

/-- By induction on the bound, both runs stop before tokens that correspond. -/
theorem declarationsWithin (bound : Nat) :
    simulation.Rel (List.map (Declaration.relocate move)) (Parser.declarationsWithin bound)
      (Parser.declarationsWithin bound) := by
  induction bound with
  | zero => exact simulation.pure _ _
  | succ bound inductionHypothesis =>
      apply simulation.bind simulation.hasNext
      intro more
      cases more with
      | false => exact simulation.pure _ _
      | true =>
          apply simulation.bind (simulation.eat _)
          intro found
          cases found with
          | some keyword =>
              apply simulation.bind (simulation.function keyword)
              intro first
              apply simulation.bind inductionHypothesis
              intro rest
              exact simulation.pure (List.map (Declaration.relocate move))
                (.function first :: rest)
          | none =>
              apply simulation.bind (simulation.eat _)
              intro found
              cases found with
              | some keyword =>
                  apply simulation.bind (simulation.binding keyword)
                  intro first
                  apply simulation.bind inductionHypothesis
                  intro rest
                  exact simulation.pure (List.map (Declaration.relocate move))
                    (.variable first :: rest)
              | none =>
                  apply simulation.bind simulation.current
                  intro token
                  apply simulation.bind (simulation.report _)
                  intro _
                  exact simulation.pure (List.map (Declaration.relocate move)) []

/-- The boundary of a module is a token, and moves. -/
theorem module : simulation.Rel (Module.relocate move) Parser.module Parser.module := by
  have moved : ∀ module : Module,
      Node.module (module.relocate move) = (Node.module module).relocate move := fun _ => rfl
  apply simulation.bind simulation.current
  intro boundary
  apply simulation.bind simulation.remaining
  intro bound
  apply simulation.bind (simulation.declarationsWithin bound)
  intro declarations
  exact simulation.make moved ⟨declarations, boundary⟩

/-- The marker of a file is a token too, and moves. -/
theorem root : simulation.Rel (Root.relocate move) Parser.root Parser.root := by
  have moved : ∀ root : Root,
      Node.root (root.relocate move) = (Node.root root).relocate move := fun _ => rfl
  apply simulation.bind simulation.module
  intro body
  have noted : simulation.Rel id (Parser.note (.parsedModule body.declarations.length))
      (Parser.note (.parsedModule (body.relocate move).declarations.length)) := by
    have count : (body.relocate move).declarations.length = body.declarations.length :=
      List.length_map _
    rw [count]
    exact simulation.note (.parsedModule body.declarations.length)
  apply simulation.bind noted
  intro _
  apply simulation.bind simulation.cursor
  intro place
  exact simulation.make moved ⟨[body], place.marker⟩

/-- Whatever the entry point, two parses whose primitive steps are related are related. -/
theorem entry (entry : Entry) :
    simulation.Rel (Node.relocate move) entry.parser entry.parser := by
  cases entry with
  | file =>
      exact simulation.bind simulation.root fun whole =>
        simulation.pure (Node.relocate move) (.root whole)
  | expression =>
      exact simulation.bind simulation.expression fun value =>
        simulation.pure (Node.relocate move) (.expression value)
  | statement =>
      apply simulation.bind simulation.statement
      intro value
      cases value <;> exact simulation.pure (Node.relocate move) _
  | identifier =>
      exact simulation.bind simulation.identifier fun name =>
        simulation.pure (Node.relocate move) name.node

end Simulation

end FrontEnd
