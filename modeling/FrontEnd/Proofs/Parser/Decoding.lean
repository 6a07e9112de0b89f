/-
This file follows what a parse makes of the tokens of a text. Every name in its tree is a word or
stands for a token of no use, and every literal holds the value that its token spells.
-/

import FrontEnd.Proofs.Binary64.RoundTrip
import FrontEnd.Proofs.Parser.Forward
import FrontEnd.Proofs.Parser.Observing
import FrontEnd.Proofs.Parser.Reading

namespace FrontEnd

/-- A name or a literal holds what its token says. -/
def Node.Decoded : Node → Prop
  | .expression (.identifier name) =>
      (name.token.WellSpelled ∧ name.token.kind = .identifier) ∨
        (name.token.error ∧ name.token.lexeme = Token.placeholderText)
  | .expression (.boolean token value) =>
      token.WellSpelled ∧ token.kind = .literal .boolean ∧ value = decide (token.lexeme = "true")
  | .expression (.number token value) =>
      token.WellSpelled ∧ token.kind = .literal .number ∧
        Binary64.read? token.lexeme = some value
  | .expression (.string token value) =>
      token.WellSpelled ∧ token.kind = .literal .string ∧
        value = Parser.stringContents token.lexeme
  | _ => True

namespace Parser

variable {ρ α β : Type}

/-- The tokens ahead are those of a text, and all nodes made so far hold what their tokens say. -/
structure Decodes (state : State Record ρ) : Prop where
  ahead : Written state.cursor.rest
  made : ∀ node ∈ state.observed.made, node.Decoded

/-- A parser that goes on decoding, whether it fails or not. -/
def Keeps (parser : Parser Record ρ α) : Prop :=
  ∀ state, Decodes state → Decodes (Outcome.state (parser state))

section Steps

variable {parser : Parser Record ρ α} {rest : α → Parser Record ρ β}

/-- A sequence keeps what both its parts keep. -/
theorem Keeps.bind (keeps : Keeps parser) (keepsRest : ∀ value, Keeps (rest value)) :
    Keeps (parser >>= rest) := by
  intro state decodes
  have first := keeps state decodes
  cases ran : parser state with
  | ok value between =>
      rw [ran] at first
      rw [bind_ok ran]
      exact keepsRest value between first
  | error error between =>
      rw [ran] at first
      rw [bind_error ran]
      exact first

theorem keeps_pure (value : α) : Keeps (pure value : Parser Record ρ α) := fun _ decodes => decodes

theorem keeps_look (view : TokenCursor → α) :
    Keeps (fun state : State Record ρ => .ok (view state.cursor) state) := fun _ decodes => decodes

theorem keeps_note (event : Event) : Keeps (note event : Parser Record ρ Unit) :=
  fun _ decodes => ⟨decodes.ahead, decodes.made⟩

/-- A token that is taken is one of the text. -/
theorem Decodes.step {state : State Record ρ} {token : Token} {next : TokenCursor}
    (decodes : Decodes state) (stepped : state.cursor.step? = some (token, next)) :
    token.WellSpelled ∧ Decodes { state with cursor := next } := by
  obtain ⟨later, left, -, rfl⟩ := TokenCursor.step?_eq_some.1 stepped
  have ahead := decodes.ahead
  rw [left] at ahead
  obtain ⟨well, others⟩ := List.forall_mem_cons.1 ahead
  exact ⟨well, others, decodes.made⟩

theorem keeps_advance : Keeps (advance : Parser Record ρ Token) := by
  intro state decodes
  unfold advance
  cases stepped : state.cursor.step? with
  | none => exact decodes
  | some step => exact (decodes.step stepped).2

/-- What follows a token that may be taken can use that it is well spelled and wanted. -/
theorem keeps_eatWhere {wanted : Token → Bool} {rest : Option Token → Parser Record ρ β}
    (taken : ∀ token : Token, token.WellSpelled → wanted token → Keeps (rest (some token)))
    (missed : Keeps (rest none)) : Keeps (eatWhere wanted >>= rest) := by
  intro state decodes
  by_cases eats : ∃ token next, state.cursor.step? = some (token, next) ∧ wanted token
  · obtain ⟨token, next, stepped, fits⟩ := eats
    obtain ⟨well, after⟩ := decodes.step stepped
    rw [bind_ok (eatWhere_of_step? stepped fits)]
    exact taken token well fits _ after
  · have stays := eatWhere_missed fun token next stepped fits => eats ⟨token, next, stepped, fits⟩
    rw [bind_ok stays]
    exact missed state decodes

/-- A token of a text that is taken has a spelling of its kind, which may be used behind it. -/
theorem keeps_eat {kind : TokenKind} {rest : Option Token → Parser Record ρ β}
    (taken : ∀ token : Token, token.WellSpelled → token.kind = kind → Keeps (rest (some token)))
    (missed : Keeps (rest none)) : Keeps (eat kind >>= rest) :=
  keeps_eatWhere (fun token well fits => taken token well (of_decide_eq_true fits)) missed

/-- Making a node keeps decoding when the node itself is decoded. -/
theorem keeps_make {node : α → Node} {value : α} (decoded : (node value).Decoded) :
    Keeps (make node value : Parser Record ρ α) := by
  intro state decodes
  refine ⟨decodes.ahead, ?_⟩
  exact List.forall_mem_append.2 ⟨decodes.made, List.forall_mem_singleton.2 decoded⟩

theorem keeps_beforeClose (close : Bracket) : Keeps (beforeClose close : Parser Record ρ Bool) :=
  keeps_look fun cursor => cursor.hasNext && cursor.current.kind != .bracket close

variable [Receiver ρ]

/-- A report tells the record of nothing, whatever the receiver answers. -/
theorem keeps_report (diagnostic : Diagnostic) :
    Keeps (report diagnostic : Parser Record ρ Unit) := by
  intro state decodes
  unfold report
  simp only
  cases Receiver.accept diagnostic state.sink <;> exact ⟨decodes.ahead, decodes.made⟩

theorem keeps_operation (fixity : Fixity) (token : Token) :
    Keeps (operation fixity token : Parser Record ρ Operation) := by
  unfold operation
  cases token.operation? fixity with
  | some meaning => exact keeps_pure meaning
  | none => exact (keeps_report _).bind fun _ => keeps_pure _

theorem keeps_expectBracket (bracket : Bracket) :
    Keeps (expectBracket bracket : Parser Record ρ Token) := by
  apply keeps_eat
  · exact fun token _ _ => keeps_pure token
  · apply (keeps_look TokenCursor.current).bind
    intro found
    apply (keeps_report _).bind
    intro _
    exact (keeps_note _).bind fun _ => keeps_pure _

/-- A report on the current token is one like any other. -/
theorem keeps_reportCurrent (code : Code) :
    Keeps (current >>= fun token => report (.atToken token code) : Parser Record ρ Unit) :=
  (keeps_look TokenCursor.current).bind fun _ => keeps_report _

theorem keeps_separator (close : Bracket) : Keeps (separator close : Parser Record ρ Unit) := by
  apply keeps_eat
  · exact fun _ _ _ => keeps_pure ()
  · apply (keeps_beforeClose close).bind
    intro more
    cases more with
    | false => exact keeps_pure ()
    | true => exact keeps_reportCurrent _

theorem keeps_passKeyword (keyword : Keyword) (code : Code) :
    Keeps (passKeyword keyword code : Parser Record ρ Unit) := by
  apply keeps_eat
  · exact fun _ _ _ => keeps_pure ()
  · exact keeps_reportCurrent code

end Steps

section Items

variable {item : Parser Record ρ α} (keeps : Keeps item)

include keeps

/-- By induction on the bound, items keep decoding as each one does. -/
theorem Keeps.itemsWithin (close : Bracket) (bound : Nat) :
    Keeps (Parser.itemsWithin close item bound) := by
  induction bound with
  | zero => exact keeps_pure []
  | succ bound inductionHypothesis =>
      apply (keeps_beforeClose close).bind
      intro more
      cases more with
      | false => exact keeps_pure []
      | true => exact keeps.bind fun first => inductionHypothesis.bind fun rest => keeps_pure _

theorem Keeps.items (close : Bracket) : Keeps (Parser.items close item) :=
  (keeps_look TokenCursor.remaining).bind fun bound => keeps.itemsWithin close bound

theorem Keeps.listItems [Receiver ρ] : Keeps (Parser.listItems item) := by
  refine Keeps.items ?_ _
  exact keeps.bind fun value => (keeps_separator _).bind fun _ => keeps_pure value

theorem Keeps.optional (kind : TokenKind) : Keeps (Parser.optional kind item) := by
  apply keeps_eat
  · exact fun _ _ _ => keeps.bind fun value => keeps_pure (some value)
  · exact keeps_pure none

end Items

variable [Receiver ρ]

/-- A name holds no value that could be wrong. -/
theorem keeps_identifier : Keeps (identifier : Parser Record ρ Identifier) := by
  apply keeps_eat
  · exact fun token well kind => keeps_make (.inl ⟨well, kind⟩)
  · apply keeps_advance.bind
    intro token
    apply (keeps_report _).bind
    intro _
    exact keeps_make (.inr ⟨rfl, rfl⟩)

/-- A literal is made with the value that its spelling decodes to. -/
theorem keeps_literal : Keeps (literal : Parser Record ρ Expression) := by
  apply keeps_eat
  · intro token well kind
    have spelled := well.spelled
    rw [kind] at spelled
    obtain ⟨value, found⟩ := Binary64.exists_read? spelled
    have reads : (numberValue token : Parser Record ρ Binary64) = pure value := by
      rw [numberValue, found]
    change Keeps (numberValue token >>= fun value => makeExpression (.number token value))
    rw [reads, pure_bind]
    exact keeps_make ⟨well, kind, found⟩
  · apply keeps_eat
    · exact fun token well kind => keeps_make ⟨well, kind, rfl⟩
    · apply keeps_eat
      · exact fun token well kind => keeps_make ⟨well, kind, rfl⟩
      · exact keeps_identifier.bind fun name => keeps_pure _

section Levels

variable {operand : Parser Record ρ Expression} (keeps : Keeps operand)

include keeps

/-- By induction on the bound, a chain keeps decoding as its operands do. -/
theorem Keeps.binaryWithin (operators : List Operator) (bound : Nat) (left : Expression) :
    Keeps (Parser.binaryWithin operators operand bound left) := by
  induction bound generalizing left with
  | zero => exact keeps_pure left
  | succ bound inductionHypothesis =>
      apply keeps_eatWhere
      · intro token _ _
        apply (keeps_operation _ _).bind
        intro meaning
        apply keeps.bind
        intro right
        exact Keeps.bind (keeps_make trivial) inductionHypothesis
      · exact keeps_pure left

theorem Keeps.binary (operators : List Operator) : Keeps (Parser.binary operators operand) := by
  apply keeps.bind
  intro left
  exact (keeps_look TokenCursor.remaining).bind fun bound => keeps.binaryWithin operators bound left

theorem Keeps.tower (operators : List (List Operator)) :
    Keeps (Parser.tower operand operators) := by
  induction operators with
  | nil => exact keeps
  | cons looser tighter inductionHypothesis => exact inductionHypothesis.binary looser

theorem Keeps.prefixed : Keeps (Parser.prefixed operand) := by
  have within : ∀ bound, Keeps (prefixedWithin operand bound) := by
    intro bound
    induction bound with
    | zero => exact keeps
    | succ bound inductionHypothesis =>
        apply keeps_eatWhere
        · intro token _ _
          apply (keeps_operation _ _).bind
          intro meaning
          exact inductionHypothesis.bind fun inner => keeps_make trivial
        · exact keeps
  exact (keeps_look TokenCursor.remaining).bind within

theorem Keeps.postfixed : Keeps (Parser.postfixed operand) := by
  apply keeps.bind
  intro value
  apply (keeps_look id).bind
  intro cursor
  split
  · apply keeps_advance.bind
    intro token
    apply (keeps_operation _ _).bind
    intro meaning
    exact keeps_make trivial
  · exact keeps_pure value

end Levels

section Inner

variable {inner : Parser Record ρ Expression} (keeps : Keeps inner)

include keeps

theorem Keeps.primary : Keeps (Parser.primary inner) := by
  apply keeps_eat
  · intro opening _ _
    apply keeps.bind
    intro content
    exact (keeps_expectBracket _).bind fun close => keeps_make trivial
  · exact keeps_literal

/-- By induction on the bound, calls keep decoding as their arguments do. -/
theorem Keeps.callWithin (bound : Nat) (receiver : Expression) :
    Keeps (Parser.callWithin inner bound receiver) := by
  induction bound generalizing receiver with
  | zero => exact keeps_pure receiver
  | succ bound inductionHypothesis =>
      apply keeps_eat
      · intro opening _ _
        apply keeps.listItems.bind
        intro arguments
        apply (keeps_expectBracket _).bind
        intro close
        exact Keeps.bind (keeps_make trivial) inductionHypothesis
      · apply keeps_eat
        · intro dot _ _
          apply keeps_identifier.bind
          intro name
          exact Keeps.bind (keeps_make trivial) inductionHypothesis
        · exact keeps_pure receiver

theorem Keeps.call : Keeps (Parser.call inner) := by
  apply keeps.primary.bind
  intro receiver
  exact (keeps_look TokenCursor.remaining).bind fun bound => keeps.callWithin bound receiver

theorem Keeps.conditional : Keeps (Parser.conditional inner) := by
  apply keeps_eat
  · intro keyword _ _
    apply keeps.bind
    intro condition
    apply (keeps_passKeyword _ _).bind
    intro _
    apply keeps.bind
    intro consequent
    apply (keeps_passKeyword _ _).bind
    intro _
    exact keeps.bind fun alternative => keeps_make trivial
  · exact keeps.call.postfixed.prefixed.tower levels

end Inner

/-- By induction on the tokens that remain, the expressions inside keep decoding. -/
theorem keeps_expression : Keeps (expression : Parser Record ρ Expression) := by
  have within : ∀ bound, Keeps (expressionWithin bound : Parser Record ρ Expression) := by
    intro bound
    induction bound with
    | zero => exact keeps_identifier.bind fun name => keeps_pure _
    | succ bound inductionHypothesis => exact inductionHypothesis.conditional.binary [.equals]
  exact (keeps_look TokenCursor.remaining).bind within

/-- A variable or a parameter keeps decoding as its value does. -/
theorem keeps_bound {node : α → Node}
    {view : Identifier → Option Identifier → Option Expression → α}
    (decoded : ∀ value, (node value).Decoded) :
    Keeps (do
      let name ← (identifier : Parser Record ρ Identifier)
      let type ← typeName
      let value ← assigned
      make node (view name type value)) := by
  apply keeps_identifier.bind
  intro name
  apply (keeps_identifier.optional _).bind
  intro type
  exact (keeps_expression.optional _).bind fun value => keeps_make (decoded _)

theorem keeps_binding (keyword : Token) : Keeps (binding keyword : Parser Record ρ Variable) :=
  keeps_bound fun _ => trivial

/-- A token that starts no statement is replaced by a node without a value. -/
theorem keeps_statement : Keeps (statement : Parser Record ρ Statement) := by
  apply keeps_eat
  · exact fun keyword _ _ => keeps_expression.bind fun value => keeps_make trivial
  · apply keeps_eat
    · exact fun keyword _ _ => (keeps_binding keyword).bind fun definition => keeps_pure _
    · apply keeps_eatWhere
      · exact fun token _ _ => (keeps_report _).bind fun _ => keeps_make trivial
      · exact keeps_expression.bind fun value => keeps_pure _

theorem keeps_block : Keeps (block : Parser Record ρ Block) := by
  apply (keeps_expectBracket _).bind
  intro opening
  apply (keeps_statement.items _).bind
  intro statements
  exact (keeps_expectBracket _).bind fun close => keeps_make trivial

theorem keeps_parameterList : Keeps (parameterList : Parser Record ρ ParameterList) := by
  have keepsParameter : Keeps (parameter : Parser Record ρ Parameter) :=
    keeps_bound fun _ => trivial
  apply (keeps_expectBracket _).bind
  intro opening
  apply keepsParameter.listItems.bind
  intro parameters
  exact (keeps_expectBracket _).bind fun close => keeps_make trivial

theorem keeps_function (keyword : Token) :
    Keeps (function keyword : Parser Record ρ FunctionDeclaration) := by
  apply keeps_identifier.bind
  intro name
  apply keeps_parameterList.bind
  intro parameters
  apply (keeps_identifier.optional _).bind
  intro result
  exact (keeps_block.optional _).bind fun body => keeps_make trivial

/-- By induction on the bound, declarations keep decoding. -/
theorem keeps_declarationsWithin (bound : Nat) :
    Keeps (declarationsWithin bound : Parser Record ρ (List Declaration)) := by
  induction bound with
  | zero => exact keeps_pure []
  | succ bound inductionHypothesis =>
      apply (keeps_look TokenCursor.hasNext).bind
      intro more
      cases more with
      | false => exact keeps_pure []
      | true =>
          apply keeps_eat
          · intro keyword _ _
            apply (keeps_function keyword).bind
            intro first
            exact inductionHypothesis.bind fun rest => keeps_pure _
          · apply keeps_eat
            · intro keyword _ _
              apply (keeps_binding keyword).bind
              intro first
              exact inductionHypothesis.bind fun rest => keeps_pure _
            · apply (keeps_look TokenCursor.current).bind
              intro token
              exact (keeps_report _).bind fun _ => keeps_pure []

theorem keeps_root : Keeps (root : Parser Record ρ Root) := by
  have keepsModule : Keeps (module : Parser Record ρ Module) := by
    apply (keeps_look TokenCursor.current).bind
    intro boundary
    apply (keeps_look TokenCursor.remaining).bind
    intro bound
    exact (keeps_declarationsWithin bound).bind fun declarations => keeps_make trivial
  apply keepsModule.bind
  intro body
  apply (keeps_note _).bind
  intro _
  exact (keeps_look id).bind fun cursor => keeps_make trivial

/-- Every entry point keeps decoding. -/
theorem keeps_entry (entry : Entry) : Keeps (entry.parser : Parser Record ρ Node) := by
  cases entry with
  | file => exact keeps_root.bind fun whole => keeps_pure _
  | expression => exact keeps_expression.bind fun value => keeps_pure _
  | statement => exact keeps_statement.bind fun statement => keeps_pure _
  | identifier => exact keeps_identifier.bind fun name => keeps_pure _

end Parser

/-- Every node that a parse of a text makes holds what its token says, also when the parse fails. -/
theorem Entry.made_decoded {ρ : Type} [Receiver ρ] {entry : Entry} {text : String}
    {tokens : List Token} {sink : ρ} (lexed : tokenize text = .ok tokens) :
    ∀ node ∈ (entry.parse tokens sink (Record.mk [])).state.observed.made, node.Decoded := by
  obtain ⟨body, stop, rfl, written⟩ := tokenize_wellSpelled lexed
  have start : Parser.Decodes
      (Parser.State.start (body ++ [Token.eof stop]) sink (Record.mk [])) := by
    refine ⟨?_, by simp [Parser.State.start]⟩
    rw [Parser.State.start, TokenCursor.ofTokens_marked body rfl]
    exact written
  exact (Parser.keeps_entry entry _ start).made

/-- Every node of a tree that was parsed from a text holds what its token says. -/
theorem Entry.parse_decoded {σ ρ : Type} [Observer σ] [Receiver ρ] {entry : Entry} {text : String}
    {tokens : List Token} {sink : ρ} {observed : σ} {node : Node}
    (lexed : tokenize text = .ok tokens)
    (parsed : (entry.parse tokens sink observed).result = .ok node) :
    ∀ inner ∈ node.preorder, inner.Decoded := by
  let kept := entry.parse tokens sink (Record.mk [])
  have agrees := entry.parse_underObservers tokens sink observed (Record.mk [])
  have made : kept.state.observed.made = node.postorder := by
    have told := entry.parse_told (agrees.result.trans parsed)
    rw [Record.foldl_note] at told
    exact congrArg Record.made told
  have decoded : ∀ inner ∈ kept.state.observed.made, inner.Decoded := entry.made_decoded lexed
  intro inner member
  apply decoded inner
  rw [made]
  exact node.postorder_perm.mem_iff.2 member

end FrontEnd
