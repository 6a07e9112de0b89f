/-
This file follows every rule of the grammar from any cursor. The tree that a rule gives has its
places filled on the way of the rule, and all reports are made on this way.
-/

import FrontEnd.Proofs.Parser.Course
import FrontEnd.Proofs.Parser.Placeholders

namespace FrontEnd

open TokenCursor (Fills)

/-- A node that a parse made between two cursors. A file stores the token where it starts and the
end marker beside the places of its declarations. -/
def Node.FilledBetween (cursor next : TokenCursor) : Node → Prop
  | .root whole => ∃ declarations : List Declaration,
      whole = ⟨[⟨declarations, cursor.current⟩], next.marker⟩ ∧
        cursor.Fills (declarations.flatMap Declaration.slots) next
  | node => cursor.Fills node.slots next

namespace Parser

variable {σ ρ α : Type} [Receiver ρ]

/-- From every cursor a parser gives values whose places are filled on its way. -/
def Filling (slots : α → List Slot) (parser : Parser σ ρ α) : Prop :=
  ∀ cursor : TokenCursor,
    Follows cursor parser cursor fun value next => cursor.Fills (slots value) next

/-- A bracket fills its own place, or a placeholder that is reported does. -/
theorem filling_expectBracket (bracket : Bracket) :
    Filling (fun token => [⟨some (bracketCode bracket), token⟩])
      (expectBracket bracket : Parser σ ρ Token) := by
  intro cursor
  apply follows_eat
  · intro token next stepped
    exact (follows_pure (.store _ stepped (.done next))).passing stepped
  · have leaves : (bracketCode bracket).leavesPlaceholder := by cases bracket <;> rfl
    apply follows_current
    have expected : bracketCode bracket ≠ .unexpectedToken := by cases bracket <;> exact nofun
    apply (follows_report (.report (.token (.inl leaves) fun same => absurd same expected)
      (.done cursor))).bind
    rintro _ _ rfl
    apply (follows_note rfl).map
    rintro _ _ rfl
    exact .miss _ _ _ (.done _)

/-- A report on a token that is left out fills no place. -/
theorem follows_omission {code : Code} (omits : code.isOmission) (cursor : TokenCursor) :
    Follows cursor (current >>= fun token => report (.atToken token code) : Parser σ ρ Unit) cursor
      fun _ next => cursor.Fills [] next := by
  apply follows_current
  have expected : code ≠ .unexpectedToken := by
    rintro rfl
    cases omits
  apply (follows_report (.report (.token (.inr omits) fun same => absurd same expected)
    (.done cursor))).mono
  rintro _ _ rfl
  exact .done _

/-- A comma fills no place, and a missing one leaves none. -/
theorem filling_separator (close : Bracket) :
    Filling (fun _ => []) (separator close : Parser σ ρ Unit) := by
  intro cursor
  apply follows_eat
  · intro token next stepped
    exact (follows_pure (.leave stepped (.done next))).passing stepped
  · apply follows_beforeClose
    intro more
    cases more with
    | false => exact follows_pure (.done cursor)
    | true => exact follows_omission rfl cursor

/-- The keywords inside a conditional fill no places. -/
theorem filling_passKeyword (keyword : Keyword) {code : Code} (omits : code.isOmission) :
    Filling (fun _ => []) (passKeyword keyword code : Parser σ ρ Unit) := by
  intro cursor
  apply follows_eat
  · intro token next stepped
    exact (follows_pure (.leave stepped (.done next))).passing stepped
  · exact follows_omission omits cursor

section Lists

variable {item : Parser σ ρ α} {slots : α → List Slot}

/-- By induction on the bound, the items fill their places one after the other. -/
theorem Filling.itemsWithin (filling : Filling slots item) (close : Bracket) (bound : Nat) :
    Filling (fun values => values.flatMap slots) (itemsWithin close item bound) := by
  induction bound with
  | zero => exact fun cursor => follows_pure (.done cursor)
  | succ bound inductionHypothesis =>
      intro cursor
      apply follows_beforeClose
      intro more
      cases more with
      | false => exact follows_pure (.done cursor)
      | true =>
          apply (filling cursor).bind
          intro first middle fills
          apply (inductionHypothesis middle).map
          intro rest next others
          exact fills.append others

theorem Filling.items (filling : Filling slots item) (close : Bracket) :
    Filling (fun values => values.flatMap slots) (items close item) :=
  fun cursor => follows_remaining (filling.itemsWithin close _ cursor)

/-- The commas between items are left out. -/
theorem Filling.listItems (filling : Filling slots item) :
    Filling (fun values => values.flatMap slots) (listItems item) := by
  refine Filling.items (fun cursor => ?_) .closeParen
  apply (filling cursor).bind
  intro value middle fills
  apply (filling_separator .closeParen middle).map
  intro _ next separated
  rw [← List.append_nil (slots value)]
  exact fills.append separated

/-- An optional part fills its places, and a missing one has none. -/
theorem Filling.optional (filling : Filling slots item) (kind : TokenKind) :
    Filling (fun found => found.toList.flatMap slots) (optional kind item) := by
  intro cursor
  apply follows_eat
  · intro token next stepped
    apply Follows.passing _ stepped
    apply (filling next).map
    intro value last fills
    simpa using Fills.leave stepped fills
  · exact follows_pure (.done cursor)

end Lists

/-- A number that cannot be read is reported where it stands, and keeps its place. -/
theorem follows_numberValue {cursor next : TokenCursor} {token : Token}
    (stepped : cursor.step? = some (token, next)) (kind : token.kind = .literal .number) :
    Follows cursor (numberValue token : Parser σ ρ Binary64) next fun _ last => last = next := by
  unfold numberValue
  cases read : Binary64.read? token.lexeme with
  | some value =>
      have stays : Follows next (pure value : Parser σ ρ Binary64) next fun _ last => last = next :=
        follows_pure rfl
      exact stays.passing stepped
  | none =>
      have reports : cursor.Reports [.atToken token .unexpectedToken] next :=
        TokenCursor.reports_taken stepped (.inl rfl) fun _ => .inr ⟨kind, read⟩
      exact (follows_report reports).map fun _ _ => id

variable [Observer σ]

/-- A token that is of no use is taken and reported, and its placeholder fills a place. -/
theorem follows_spoiled {code : Code} (leaves : code.leavesPlaceholder) {cursor next : TokenCursor}
    {token : Token} (stepped : cursor.step? = some (token, next))
    (unexpected : code = .unexpectedToken → token.IsUnexpected) {node : α → Node} {value : α}
    {slots : α → List Slot} (same : slots value = [⟨some code, token.toPlaceholder⟩]) :
    Follows cursor (report (.atToken token code) >>= fun _ => make node value : Parser σ ρ α) next
      fun value last => cursor.Fills (slots value) last := by
  apply (follows_report (TokenCursor.reports_taken stepped (.inl leaves) unexpected)).bind
  rintro _ _ rfl
  apply follows_make
  rw [same]
  exact .spoil _ stepped (.done _)

/-- A name fills its place, or takes a token in its stead, which is reported. -/
theorem filling_identifier : Filling Identifier.slots (identifier : Parser σ ρ Identifier) := by
  intro cursor
  apply follows_eat
  · intro token next stepped
    exact (follows_make (.store _ stepped (.done next))).passing stepped
  · apply follows_advance
    intro token next stepped
    have expected : Code.expectedIdentifier ≠ .unexpectedToken := nofun
    exact follows_spoiled rfl stepped (fun same => absurd same expected) rfl

/-- A literal stores its token. -/
theorem follows_literal {cursor next : TokenCursor} {token : Token}
    (stepped : cursor.step? = some (token, next)) {value : Expression}
    (stores : value.slots = [⟨none, token⟩]) :
    Follows cursor (makeExpression value : Parser σ ρ Expression) next fun value last =>
      cursor.Fills value.slots last := by
  apply Follows.passing _ stepped
  apply follows_make
  rw [stores]
  exact .store none stepped (.done next)

/-- A literal fills one place. -/
theorem filling_literal : Filling Expression.slots (literal : Parser σ ρ Expression) := by
  intro cursor
  apply follows_eatWhere
  · intro token next stepped kind
    apply (follows_numberValue stepped (of_decide_eq_true kind)).make
    rintro value _ rfl
    exact .store none stepped (.done _)
  · apply follows_eat
    · exact fun token next stepped => follows_literal stepped rfl
    · apply follows_eat
      · exact fun token next stepped => follows_literal stepped rfl
      · exact (filling_identifier cursor).map fun _ _ fills => fills

section Operators

variable {operand : Parser σ ρ Expression} (filling : Filling Expression.slots operand)

include filling

/-- By induction on the bound, each operator and its right operand fill the places behind the left
one. -/
theorem Filling.binaryWithin {operators : List Operator}
    (mean : ∀ sign ∈ operators, (sign.operation? .between).isSome) (bound : Nat)
    {start cursor : TokenCursor} {left : Expression} (filled : start.Fills left.slots cursor) :
    Follows cursor (binaryWithin operators operand bound left) cursor fun value next =>
      start.Fills value.slots next := by
  induction bound generalizing cursor left with
  | zero => exact follows_pure filled
  | succ bound inductionHypothesis =>
      apply follows_eatOneOf
      · intro token next stepped sign member kind
        obtain ⟨meaning, means⟩ := Option.isSome_iff_exists.1 (mean sign member)
        apply follows_operation (Token.operation?_eq_some.2 ⟨sign, kind, means⟩)
        apply (filling next).bind
        intro right last fills
        apply Follows.afterMake
        exact inductionHypothesis (filled.append (.store none stepped fills))
      · exact follows_pure filled

theorem Filling.binary {operators : List Operator}
    (mean : ∀ sign ∈ operators, (sign.operation? .between).isSome) :
    Filling Expression.slots (binary operators operand) := by
  intro cursor
  apply (filling cursor).bind
  intro left middle filled
  exact follows_remaining (filling.binaryWithin mean _ filled)

/-- By induction on the ranks, each fills the places of its value since the tighter ones do. -/
theorem Filling.tower {levels : List (List Operator)}
    (mean : ∀ operators ∈ levels, ∀ sign ∈ operators, (sign.operation? .between).isSome) :
    Filling Expression.slots (tower operand levels) := by
  induction levels with
  | nil => exact filling
  | cons operators tighter inductionHypothesis =>
      obtain ⟨meanFirst, meanOthers⟩ := List.forall_mem_cons.1 mean
      exact Filling.binary (inductionHypothesis meanOthers) meanFirst

/-- A sign fills the place before its operand. -/
theorem Filling.prefixed : Filling Expression.slots (prefixed operand) := by
  have within : ∀ bound, Filling Expression.slots (prefixedWithin operand bound) := by
    intro bound
    induction bound with
    | zero => exact filling
    | succ bound inductionHypothesis =>
        intro cursor
        apply follows_eatOneOf
        · intro token next stepped sign member kind
          obtain ⟨meaning, means⟩ := mem_prefixSigns.1 member
          apply follows_operation (Token.operation?_eq_some.2 ⟨sign, kind, means⟩)
          apply (inductionHypothesis next).make
          intro inner last fills
          exact .store none stepped fills
        · exact filling cursor
  exact fun cursor => follows_remaining (within _ cursor)

/-- The sign after an operand was looked at before it is taken, so it has a meaning there. -/
theorem Filling.postfixed : Filling Expression.slots (postfixed operand) := by
  intro cursor
  apply (filling cursor).bind
  intro value middle filled
  apply follows_cursor
  cases closes : closesOperand middle with
  | false => exact follows_pure filled
  | true =>
      apply follows_advance
      intro token next stepped
      have isSign := (Bool.and_eq_true_iff.1 (Bool.and_eq_true_iff.1 closes).1).2
      rw [TokenCursor.current_of_step? stepped] at isSign
      obtain ⟨sign, member, kind⟩ := List.any_eq_true.1 isSign
      obtain ⟨meaning, means⟩ := mem_postfixSigns.1 member
      have meansToken := Token.operation?_eq_some.2 ⟨sign, of_decide_eq_true kind, means⟩
      apply Follows.passing _ stepped
      apply follows_operation meansToken
      exact follows_make (filled.append (.store none stepped (.done next)))

end Operators

section Inner

variable {inner : Parser σ ρ Expression} (filling : Filling Expression.slots inner)

include filling

/-- A group fills the places of its brackets around those of its content. -/
theorem Filling.primary : Filling Expression.slots (primary inner) := by
  intro cursor
  apply follows_eat
  · intro opening next stepped
    apply Follows.passing _ stepped
    apply (filling next).bind
    intro content middle fills
    apply (filling_expectBracket .closeParen middle).make
    intro close last closes
    exact .store none stepped (fills.append closes)
  · exact filling_literal cursor

/-- By induction on the bound, each call or property fills the places behind its receiver. -/
theorem Filling.callWithin (bound : Nat) {start cursor : TokenCursor} {receiver : Expression}
    (filled : start.Fills receiver.slots cursor) :
    Follows cursor (callWithin inner bound receiver) cursor fun value next =>
      start.Fills value.slots next := by
  induction bound generalizing cursor receiver with
  | zero => exact follows_pure filled
  | succ bound inductionHypothesis =>
      apply follows_eat
      · intro opening next stepped
        apply Follows.passing _ stepped
        apply (filling.listItems next).bind
        intro arguments middle fills
        apply (filling_expectBracket .closeParen middle).bind
        intro close last closes
        apply Follows.afterMake
        apply inductionHypothesis
        rw [Expression.slots, Expression.slotsOfAll_eq_flatMap]
        exact filled.append (.leave stepped (fills.append closes))
      · apply follows_eat
        · intro dot next stepped
          apply Follows.passing _ stepped
          apply (filling_identifier next).bind
          intro name last fills
          apply Follows.afterMake
          exact inductionHypothesis (filled.append (.leave stepped fills))
        · exact follows_pure filled

theorem Filling.call : Filling Expression.slots (call inner) := by
  intro cursor
  apply (filling.primary cursor).bind
  intro receiver middle filled
  exact follows_remaining (filling.callWithin _ filled)

/-- The first keyword of a conditional fills a place, and the other two are left out. -/
theorem Filling.conditional : Filling Expression.slots (conditional inner) := by
  intro cursor
  apply follows_eat
  · intro keyword next stepped
    apply Follows.passing _ stepped
    apply (filling next).bind
    intro condition second fillsCondition
    apply (filling_passKeyword .thenWord rfl second).bind
    intro _ third passesThen
    apply (filling third).bind
    intro consequent fourth fillsConsequent
    apply (filling_passKeyword .elseWord rfl fourth).bind
    intro _ fifth passesElse
    apply (filling fifth).make
    intro alternative last fillsAlternative
    have rest := passesThen.append (fillsConsequent.append (passesElse.append fillsAlternative))
    exact .store none stepped (fillsCondition.append rest)
  · exact (filling.call.postfixed.prefixed).tower (by decide) cursor

theorem Filling.assignment : Filling Expression.slots (assignment inner) :=
  filling.conditional.binary (by decide)

end Inner

/-- By induction on the bound, an expression fills places since those inside it do. -/
theorem filling_expression : Filling Expression.slots (expression : Parser σ ρ Expression) := by
  have within : ∀ bound,
      Filling Expression.slots (expressionWithin bound : Parser σ ρ Expression) := by
    intro bound
    induction bound with
    | zero => exact fun cursor => (filling_identifier cursor).map fun _ _ fills => fills
    | succ bound inductionHypothesis => exact inductionHypothesis.assignment
  exact fun cursor => follows_remaining (within _ cursor)

theorem filling_typeName :
    Filling (fun type => type.toList.flatMap Identifier.slots)
      (typeName : Parser σ ρ (Option Identifier)) :=
  filling_identifier.optional _

theorem filling_assigned :
    Filling (fun value => value.toList.flatMap Expression.slots)
      (assigned : Parser σ ρ (Option Expression)) :=
  filling_expression.optional _

/-- What is made of a name, its type and its value has their places. -/
theorem filling_binding {node : α → Node} {slots : α → List Slot}
    {view : Identifier → Option Identifier → Option Expression → α} {start cursor : TokenCursor}
    (holds : ∀ name type value next, cursor.Fills (slotsOfBinding name type value) next →
      start.Fills (slots (view name type value)) next) :
    Follows cursor (do
      let name ← identifier
      let type ← typeName
      let value ← assigned
      make node (view name type value) : Parser σ ρ α) cursor fun value next =>
        start.Fills (slots value) next := by
  apply (filling_identifier cursor).bind
  intro name second fillsName
  apply (filling_typeName second).bind
  intro type third fillsType
  apply (filling_assigned third).make
  intro value next fillsValue
  exact holds name type value next ((fillsName.append fillsType).append fillsValue)

/-- A variable fills its places from its keyword on. -/
theorem follows_binding {cursor next : TokenCursor} {keyword : Token}
    (stepped : cursor.step? = some (keyword, next)) :
    Follows next (binding keyword : Parser σ ρ Variable) next fun definition last =>
      cursor.Fills definition.slots last :=
  filling_binding fun _ _ _ _ fills => .store none stepped fills

/-- A token that starts no statement fills a place as a placeholder. -/
theorem filling_statement : Filling Statement.slots (statement : Parser σ ρ Statement) := by
  intro cursor
  apply follows_eat
  · intro keyword next stepped
    apply Follows.passing _ stepped
    apply (filling_expression next).make
    intro value last fills
    exact .store none stepped fills
  · apply follows_eat
    · intro keyword next stepped
      apply Follows.passing _ stepped
      apply (follows_binding stepped).map
      exact fun definition last fills => fills
    · apply follows_eatWhere
      · intro token next stepped starts
        exact follows_spoiled rfl stepped (fun _ => .inl starts) rfl
      · exact (filling_expression cursor).map fun _ _ fills => fills

/-- A block fills the places of its brackets around those of its statements. -/
theorem filling_block : Filling Block.slots (block : Parser σ ρ Block) := by
  intro cursor
  apply (filling_expectBracket .openCurly cursor).bind
  intro opening second opens
  apply (filling_statement.items .closeCurly second).bind
  intro statements third fills
  apply (filling_expectBracket .closeCurly third).make
  intro close next closes
  exact opens.append (fills.append closes)

theorem filling_parameter : Filling Parameter.slots (parameter : Parser σ ρ Parameter) :=
  fun _ => filling_binding fun _ _ _ _ fills => fills

theorem filling_parameterList :
    Filling ParameterList.slots (parameterList : Parser σ ρ ParameterList) := by
  intro cursor
  apply (filling_expectBracket .openParen cursor).bind
  intro opening second opens
  apply (filling_parameter.listItems second).bind
  intro parameters third fills
  apply (filling_expectBracket .closeParen third).make
  intro close next closes
  exact opens.append (fills.append closes)

/-- A function fills its places from its keyword on. -/
theorem follows_function {cursor next : TokenCursor} {keyword : Token}
    (stepped : cursor.step? = some (keyword, next)) :
    Follows next (function keyword : Parser σ ρ FunctionDeclaration) next fun declared last =>
      cursor.Fills declared.slots last := by
  apply (filling_identifier next).bind
  intro name second fillsName
  apply (filling_parameterList second).bind
  intro parameters third fillsParameters
  apply (filling_typeName third).bind
  intro result fourth fillsResult
  apply (filling_block.optional _ fourth).make
  intro body last fillsBody
  exact .store none stepped
    (((fillsName.append fillsParameters).append fillsResult).append fillsBody)

/-- By induction on the bound, the declarations fill their places one after the other. -/
theorem filling_declarationsWithin (bound : Nat) :
    Filling (fun declarations => declarations.flatMap Declaration.slots)
      (declarationsWithin bound : Parser σ ρ (List Declaration)) := by
  induction bound with
  | zero => exact fun cursor => follows_pure (.done cursor)
  | succ bound inductionHypothesis =>
      intro cursor
      apply follows_hasNext
      cases goesOn : cursor.hasNext with
      | false => exact follows_pure (.done cursor)
      | true =>
          apply follows_eat
          · intro keyword next stepped
            apply Follows.passing _ stepped
            apply (follows_function stepped).bind
            intro declared middle fills
            apply (inductionHypothesis middle).map
            intro rest last others
            exact fills.append others
          · apply follows_eat
            · intro keyword next stepped
              apply Follows.passing _ stepped
              apply (follows_binding stepped).bind
              intro definition middle fills
              apply (inductionHypothesis middle).map
              intro rest last others
              exact fills.append others
            · apply follows_current
              apply (follows_report (.report (.declaration goesOn) (.done cursor))).map
              rintro _ _ rfl
              exact .done _

/-- Every entry point gives a node that is filled on its way. -/
theorem follows_entry (entry : Entry) (cursor : TokenCursor) :
    Follows cursor (entry.parser : Parser σ ρ Node) cursor fun node next =>
      node.FilledBetween cursor next := by
  cases entry with
  | file =>
      have followsModule : Follows cursor (module : Parser σ ρ Module) cursor fun body next =>
          ∃ declarations : List Declaration, body = ⟨declarations, cursor.current⟩ ∧
            cursor.Fills (declarations.flatMap Declaration.slots) next := by
        apply follows_current
        apply follows_remaining
        apply (filling_declarationsWithin _ cursor).make
        intro declarations next fills
        exact ⟨declarations, rfl, fills⟩
      have followsRoot : Follows cursor (root : Parser σ ρ Root) cursor fun whole next =>
          (Node.root whole).FilledBetween cursor next := by
        apply followsModule.bind
        rintro _ middle ⟨declarations, rfl, fills⟩
        apply (follows_note rfl).bind
        rintro _ _ rfl
        apply follows_cursor
        exact follows_make ⟨declarations, rfl, fills⟩
      exact followsRoot.map fun _ _ filled => filled
  | expression => exact (filling_expression cursor).map fun _ _ fills => fills
  | statement =>
      apply (filling_statement cursor).map
      intro statement next fills
      cases statement <;> exact fills
  | identifier => exact (filling_identifier cursor).map fun _ _ fills => fills

end Parser

/-- However a fresh parse ends, it made its reports on its way, and its receiver took or refused
them one after the other. -/
theorem Entry.parse_ends {σ ρ : Type} [Observer σ] [Receiver ρ] (entry : Entry)
    (tokens : List Token) (sink : ρ) (observed : σ) :
    Parser.Ends (TokenCursor.ofTokens tokens) (Parser.State.start tokens sink observed)
      (fun node next => node.FilledBetween (TokenCursor.ofTokens tokens) next)
      (entry.parse tokens sink observed) :=
  Parser.follows_entry entry (TokenCursor.ofTokens tokens) _ rfl

end FrontEnd
