/-
This file reads canonical statements, declarations and modules.
-/

import FrontEnd.Proofs.Parser.ReadingExpressions
import FrontEnd.Proofs.Tree.ModuleShape

namespace FrontEnd

variable {σ ρ α : Type}

namespace Parser

theorem reads_optional_some {kind : TokenKind} (real : kind ≠ .eof) {item : Parser σ ρ α}
    {token : Token} {before after : List Token} {value : α} (same : token.kind = kind)
    (reads : Reads item before value after) :
    Reads (optional kind item) (token :: before) (some value) after :=
  (reads_eat real same).bind (reads.bind (reads_pure (some value) after))

/-- An optional part is missing where its first token is. -/
theorem reads_optional_none {kind : TokenKind} {item : Parser σ ρ α} {before : List Token}
    (misses : kindAhead before ≠ kind) : Reads (optional kind item) before none before :=
  (reads_eat_none misses).bind (reads_pure none before)

/-- Items in a sequence are read up to the closing bracket, each as far as it goes. -/
theorem reads_sequence {item : Parser σ ρ α} {close : Bracket} {pieces : α → List Piece}
    {ends : α → List TokenKind → Prop} {ahead : List TokenKind} {values : List α}
    (begins : ∀ value ∈ values, ∃ piece rest, pieces value = piece :: rest ∧
      piece.kind ≠ .eof ∧ piece.kind ≠ .bracket close)
    (reads : ∀ value ∈ values, ∀ taken rest, Spells (pieces value) taken →
      ends value (rest.map Token.kind) → Reads item (taken ++ rest) value rest)
    (stable : ∀ value ahead ahead', ends value ahead → LookAlike ahead ahead' →
      ends value ahead')
    (sequenced : Sequenced pieces ends ahead values) {taken rest : List Token}
    (spelled : Spells (values.flatMap pieces) taken)
    (alike : LookAlike ahead (rest.map Token.kind))
    (closes : kindAhead rest = .bracket close) (count : Nat)
    (counted : (taken ++ rest).length ≤ count) :
    Reads (itemsWithin close item count) (taken ++ rest) values rest := by
  induction values generalizing taken count with
  | nil =>
      obtain rfl := spells_nil.1 spelled
      exact reads_itemsWithin_nil closes count
  | cons first others inductionHypothesis =>
      obtain ⟨own, tail, spelledOwn, spelledTail, rfl⟩ := spells_append.1 spelled
      obtain ⟨endsFirst, sequencedOthers⟩ := sequenced
      obtain ⟨piece, later, same, notEnd, notClose⟩ := begins first List.mem_cons_self
      rw [List.append_assoc] at counted ⊢
      have starts : kindAhead (own ++ (tail ++ rest)) = piece.kind :=
        Spells.kindAhead (same ▸ spelledOwn) _
      have endsHere : ends first ((tail ++ rest).map Token.kind) := by
        rw [List.map_append, spelledTail.kinds]
        exact stable _ _ _ endsFirst (alike.append _)
      have nonempty : 1 ≤ own.length := by
        obtain ⟨token, _, _, _, rfl⟩ := spells_cons.1 (same ▸ spelledOwn)
        simp
      refine reads_itemsWithin_cons (tail ++ rest) (starts ▸ notEnd) (starts ▸ notClose) counted
        (reads first List.mem_cons_self own _ spelledOwn endsHere) fun bound counted => ?_
      refine inductionHypothesis (fun value member => begins value (.tail _ member))
        (fun value member => reads value (.tail _ member)) sequencedOthers spelledTail bound ?_
      rw [List.length_append] at counted
      omega

variable [Observer σ] [Receiver ρ]

/-- A type is read behind its colon, or is missing. -/
theorem reads_typeName {type : Option Identifier}
    (typed : ∀ annotation ∈ type, annotation.token.kind = .identifier) {taken rest : List Token}
    (spelled : Spells (type.toList.flatMap fun type => .mark (.symbol .colon) :: type.pieces) taken)
    (untyped : type = none → kindAhead rest ≠ .symbol .colon) :
    Reads (typeName : Parser σ ρ (Option Identifier)) (taken ++ rest) type rest := by
  cases type with
  | none =>
      obtain rfl := spells_nil.1 spelled
      exact reads_optional_none (untyped rfl)
  | some annotation =>
      rw [Option.toList_some, List.flatMap_singleton] at spelled
      obtain ⟨colon, others, kind, spelledOthers, rfl⟩ := spells_cons.1 spelled
      obtain ⟨_, _, rfl, spelledNil, rfl⟩ := spells_cons.1 spelledOthers
      obtain rfl := spells_nil.1 spelledNil
      exact reads_optional_some (by simp) kind (reads_identifier (typed annotation rfl))

/-- A value is read behind its sign, or is missing. -/
theorem reads_assigned {value : Option Expression} (assigned' : ∀ given ∈ value, given.Canonical)
    {taken rest : List Token}
    (spelled : Spells
      (value.toList.flatMap fun value => .mark (.operator .equals) :: value.pieces) taken)
    (ends : ∀ given ∈ value, given.EndsBefore 0 (rest.map Token.kind))
    (unassigned : value = none → kindAhead rest ≠ .operator .equals) :
    Reads (assigned : Parser σ ρ (Option Expression)) (taken ++ rest) value rest := by
  cases value with
  | none =>
      obtain rfl := spells_nil.1 spelled
      exact reads_optional_none (unassigned rfl)
  | some given =>
      rw [Option.toList_some, List.flatMap_singleton] at spelled
      obtain ⟨sign, others, kind, spelledOthers, rfl⟩ := spells_cons.1 spelled
      exact reads_optional_some (by simp) kind
        (reads_expression (assigned' given rfl) spelledOthers (ends given rfl))

/-- A canonical binding is read before what is done with it. -/
theorem reads_binding {use : Identifier → Option Identifier → Option Expression → Parser σ ρ α}
    {name : Identifier} {type : Option Identifier} {value : Option Expression}
    (canonical : BindingCanonical name type value) {taken rest after : List Token} {result : α}
    (spelled : Spells (piecesOfBinding name type value) taken)
    (ends : BindingEndsBefore type value (rest.map Token.kind))
    (reads : Reads (use name type value) rest result after) :
    Reads (do
      let name ← identifier
      let type ← typeName
      let value ← assigned
      use name type value) (taken ++ rest) result after := by
  obtain ⟨front, valueTokens, spelledFront, spelledValue, rfl⟩ := spells_append.1 spelled
  obtain ⟨nameTokens, typeTokens, spelledName, spelledType, rfl⟩ := spells_append.1 spelledFront
  obtain ⟨_, _, rfl, spelledNil, rfl⟩ := spells_cons.1 spelledName
  obtain rfl := spells_nil.1 spelledNil
  rw [List.append_assoc, List.append_assoc]
  apply (reads_identifier canonical.named).bind
  refine (reads_typeName canonical.typed spelledType fun none => ?_).bind ?_
  · cases value with
    | none =>
        obtain rfl := spells_nil.1 spelledValue
        exact ends.untyped rfl none
    | some given =>
        rw [Option.toList_some, List.flatMap_singleton] at spelledValue
        rw [spelledValue.kindAhead]
        simp [Piece.kind]
  · exact (reads_assigned canonical.assigned spelledValue ends.assigned ends.unassigned).bind reads

/-- What begins as an expression does is read as one, and as no other statement. -/
theorem reads_statement_expression {value : Expression} {before after : List Token}
    (begins : (kindAhead before).beginsExpression)
    (reads : Reads (expression : Parser σ ρ Expression) before value after) :
    Reads (statement : Parser σ ρ Statement) before (.expression value) after := by
  apply (reads_eat_none (TokenKind.ne_of_beginsExpression begins rfl)).bind
  apply (reads_eat_none (TokenKind.ne_of_beginsExpression begins rfl)).bind
  refine (reads_eatWhere_none fun token others same _ => ?_).bind ?_
  · rw [same, kindAhead_cons] at begins
    unfold startsNoStatement
    split
    · rename_i side kind
      rw [kind] at begins
      cases side <;> first | rfl | cases begins
    · rename_i kind
      rw [kind] at begins
      cases begins
    · rfl
  exact reads.bind (reads_pure _ after)

/-- A canonical statement is read up to where it ends. -/
theorem reads_statement {statement : Statement} (canonical : statement.Canonical)
    {taken rest : List Token} (spelled : Spells statement.pieces taken)
    (ends : statement.EndsBefore (rest.map Token.kind)) :
    Reads (Parser.statement : Parser σ ρ Statement) (taken ++ rest) statement rest := by
  cases statement with
  | returned keyword value =>
      obtain ⟨kind, valueCanonical⟩ := canonical
      obtain ⟨_, others, rfl, spelledValue, rfl⟩ := spells_cons.1 spelled
      apply (reads_eat (by simp) kind).bind
      exact (reads_expression valueCanonical spelledValue ends).bind (reads_make _ _ rest)
  | «variable» definition =>
      obtain ⟨kind, bindingCanonical⟩ := canonical
      obtain ⟨_, others, rfl, spelledBinding, rfl⟩ := spells_cons.1 spelled
      apply (reads_eat_none (by simp [kind])).bind
      apply (reads_eat (by simp) kind).bind
      have reads : Reads (binding definition.keyword : Parser σ ρ Variable) (others ++ rest)
          definition rest :=
        reads_binding bindingCanonical spelledBinding ends (reads_make _ _ rest)
      exact reads.bind (reads_pure _ rest)
  | expression value =>
      have canonical : value.Canonical := canonical
      have spelled : Spells value.pieces taken := spelled
      obtain ⟨later, starts⟩ := value.pieces_eq_cons
      have ahead : kindAhead (taken ++ rest) = value.first.kind :=
        Spells.kindAhead (starts ▸ spelled) rest
      have begins : (kindAhead (taken ++ rest)).beginsExpression := ahead ▸ canonical.begins
      exact reads_statement_expression begins (reads_expression canonical spelled ends)
  | recovery token => exact canonical.elim

/-- A canonical block is read up to its second bracket, whatever follows. -/
theorem reads_block {block : Block} (canonical : block.Canonical) {taken : List Token}
    (spelled : Spells block.pieces taken) (rest : List Token) :
    Reads (Parser.block : Parser σ ρ Block) (taken ++ rest) block rest := by
  obtain ⟨_, others, rfl, spelledOthers, rfl⟩ := spells_cons.1 spelled
  obtain ⟨body, last, spelledBody, spelledLast, rfl⟩ := spells_append.1 spelledOthers
  obtain ⟨_, _, rfl, spelledNil, rfl⟩ := spells_cons.1 spelledLast
  obtain rfl := spells_nil.1 spelledNil
  rw [List.cons_append, List.append_assoc]
  have alike : LookAlike [.bracket .closeCurly] ((block.close :: rest).map Token.kind) := by
    rw [List.map_cons, canonical.close]
    exact LookAlike.ofEnd _ _ rfl
  apply (reads_expectBracket canonical.opening).bind
  refine (reads_remaining.2 (reads_sequence
    (fun statement member => Statement.Canonical.begins (canonical.statements statement member))
    (fun statement member taken rest => reads_statement (canonical.statements statement member))
    (fun _ _ _ => Statement.EndsBefore.alike) canonical.sequenced spelledBody alike
    canonical.close _ le_rfl)).bind ?_
  exact (reads_expectBracket canonical.close).bind (reads_make _ _ rest)

/-- Canonical parameters are read up to the second parenthesis, whatever follows. -/
theorem reads_parameterList {list : ParameterList} (canonical : list.Canonical)
    {taken : List Token} (spelled : Spells list.pieces taken) (rest : List Token) :
    Reads (parameterList : Parser σ ρ ParameterList) (taken ++ rest) list rest := by
  obtain ⟨_, others, rfl, spelledOthers, rfl⟩ := spells_cons.1 spelled
  obtain ⟨body, last, spelledBody, spelledLast, rfl⟩ := spells_append.1 spelledOthers
  obtain ⟨_, _, rfl, spelledNil, rfl⟩ := spells_cons.1 spelledLast
  obtain rfl := spells_nil.1 spelledNil
  rw [List.cons_append, List.append_assoc]
  apply (reads_expectBracket canonical.opening).bind
  have closes : kindAhead ([list.close] ++ rest) = .bracket .closeParen := canonical.close
  refine (reads_listItems (fun parameter member => ?_)
    (fun parameter member taken rest spelled _ ahead => ?_) spelledBody closes le_rfl).bind ?_
  · have kind := (canonical.parameters parameter member).named
    exact ⟨_, _, rfl, by simp [Piece.kind, kind]⟩
  · have closed : (kindAhead rest).endsExpression := by
      rcases ahead with comma | closes
      · rw [comma]
        rfl
      · rw [closes]
        rfl
    refine reads_binding (canonical.parameters parameter member) spelled
      ⟨fun given _ => Expression.endsBefore_ofEnd closed 0 given,
        fun _ => TokenKind.ne_of_endsExpression closed rfl, fun _ _ kind => ?_⟩
      (reads_make _ _ rest)
    rcases ahead with comma | closes
    · simp [show kindAhead rest = _ from kind] at comma
    · simp [show kindAhead rest = _ from kind] at closes
  · exact (reads_expectBracket canonical.close).bind (reads_make _ _ rest)

/-- A canonical function is read up to where it ends. -/
theorem reads_function {declared : FunctionDeclaration} (canonical : declared.Canonical)
    {taken rest : List Token}
    (spelled : Spells declared.pieces (declared.keyword :: taken))
    (ends : declared.EndsBefore (rest.map Token.kind)) :
    Reads (function declared.keyword : Parser σ ρ FunctionDeclaration) (taken ++ rest) declared
      rest := by
  obtain ⟨_, _, -, spelledAfter, same⟩ := spells_cons.1 spelled
  obtain ⟨-, rfl⟩ := List.cons.inj same
  obtain ⟨front, bodyTokens, spelledFront, spelledBody, rfl⟩ := spells_append.1 spelledAfter
  obtain ⟨start, resultTokens, spelledStart, spelledResult, rfl⟩ := spells_append.1 spelledFront
  obtain ⟨nameTokens, listTokens, spelledName, spelledList, rfl⟩ := spells_append.1 spelledStart
  obtain ⟨_, _, rfl, spelledNil, rfl⟩ := spells_cons.1 spelledName
  obtain rfl := spells_nil.1 spelledNil
  rw [List.append_assoc, List.append_assoc, List.append_assoc]
  apply (reads_identifier canonical.name).bind
  apply (reads_parameterList canonical.parameters spelledList _).bind
  refine (reads_typeName canonical.result spelledResult fun none => ?_).bind ?_
  · cases body : declared.body with
    | none =>
        rw [body] at spelledBody
        obtain rfl := spells_nil.1 spelledBody
        exact ends.untyped body none
    | some block =>
        rw [body, Option.toList_some, List.flatMap_singleton] at spelledBody
        rw [spelledBody.kindAhead]
        simp [Piece.kind]
  · have readsBody : Reads (optional (.symbol .arrow) block : Parser σ ρ (Option Block))
        (bodyTokens ++ rest) declared.body rest := by
      cases body : declared.body with
      | none =>
          rw [body] at spelledBody
          obtain rfl := spells_nil.1 spelledBody
          exact reads_optional_none (ends.bodiless body)
      | some block =>
          rw [body, Option.toList_some, List.flatMap_singleton] at spelledBody
          obtain ⟨arrow, others, kind, spelledOthers, rfl⟩ := spells_cons.1 spelledBody
          exact reads_optional_some (by simp) kind
            (reads_block (canonical.body block body) spelledOthers rest)
    exact readsBody.bind (reads_make _ _ rest)

/-- The declarations of a module are read up to the end. -/
theorem reads_declarationsWithin {declarations : List Declaration}
    (canonical : ∀ declaration ∈ declarations, declaration.Canonical)
    (sequenced : Sequenced Declaration.pieces Declaration.EndsBefore [] declarations)
    {tokens : List Token} (spelled : Spells (declarations.flatMap Declaration.pieces) tokens)
    (count : Nat) (counted : tokens.length ≤ count) :
    Reads (declarationsWithin count : Parser σ ρ (List Declaration)) tokens declarations [] := by
  induction declarations generalizing tokens count with
  | nil =>
      obtain rfl := spells_nil.1 spelled
      cases count with
      | zero => exact reads_pure [] []
      | succ count => exact (reads_hasNext []).bind (reads_pure [] [])
  | cons first others inductionHypothesis =>
      obtain ⟨own, rest, spelledOwn, spelledRest, rfl⟩ := spells_append.1 spelled
      obtain ⟨endsFirst, sequencedOthers⟩ := sequenced
      have firstCanonical := canonical first List.mem_cons_self
      have readsRest := fun count => inductionHypothesis
        (fun declaration member => canonical declaration (.tail _ member)) sequencedOthers
        spelledRest count
      have endsHere : first.EndsBefore (rest.map Token.kind) := by
        rw [List.append_nil] at endsFirst
        rw [spelledRest.kinds]
        exact endsFirst
      cases first with
      | function declared =>
          have firstCanonical : declared.Canonical := firstCanonical
          obtain ⟨_, tail, rfl, spelledTail, rfl⟩ := spells_cons.1 spelledOwn
          rw [List.cons_append] at counted ⊢
          rw [List.length_cons, List.length_append] at counted
          obtain ⟨count, rfl⟩ : ∃ before, count = before + 1 :=
            Nat.exists_eq_add_one_of_ne_zero (by omega)
          have goesOn : kindAhead (declared.keyword :: (tail ++ rest)) ≠ .eof := by
            simp [firstCanonical.keyword]
          apply (reads_hasNext _).bind
          rw [decide_eq_true goesOn]
          apply (reads_eat (by simp) firstCanonical.keyword).bind
          apply (reads_function firstCanonical spelledOwn endsHere).bind
          exact (readsRest count (by omega)).bind (reads_pure _ [])
      | «variable» definition =>
          obtain ⟨kind, bindingCanonical⟩ := firstCanonical
          obtain ⟨_, tail, rfl, spelledTail, rfl⟩ := spells_cons.1 spelledOwn
          rw [List.cons_append] at counted ⊢
          rw [List.length_cons, List.length_append] at counted
          obtain ⟨count, rfl⟩ : ∃ before, count = before + 1 :=
            Nat.exists_eq_add_one_of_ne_zero (by omega)
          have goesOn : kindAhead (definition.keyword :: (tail ++ rest)) ≠ .eof := by simp [kind]
          apply (reads_hasNext _).bind
          rw [decide_eq_true goesOn]
          apply (reads_eat_none (by simp [kind])).bind
          apply (reads_eat (by simp) kind).bind
          have reads : Reads (binding definition.keyword : Parser σ ρ Variable) (tail ++ rest)
              definition rest :=
            reads_binding bindingCanonical spelledTail endsHere (reads_make _ _ rest)
          apply reads.bind
          exact (readsRest count (by omega)).bind (reads_pure _ [])

/-- The declarations of a canonical module are read to the end. -/
theorem reads_declarations {body : Module} (canonical : body.Canonical) {tokens : List Token}
    (spelled : Spells body.pieces tokens) :
    Reads (declarationsWithin tokens.length : Parser σ ρ (List Declaration)) tokens
      body.declarations [] :=
  reads_declarationsWithin canonical.declarations canonical.sequenced spelled _ le_rfl

/-- A root is read when the declarations of its module are, whatever token the module starts at. -/
theorem reads_root {declarations : List Declaration} {tokens : List Token}
    (reads : Reads (declarationsWithin tokens.length : Parser σ ρ (List Declaration)) tokens
      declarations []) {state : State σ ρ}
    (ended : state.cursor.marker.kind = .eof) (starts : state.cursor.rest = tokens) :
    ∃ boundary next, (Parser.root : Parser σ ρ Root) state =
        .ok ⟨[⟨declarations, boundary⟩], state.cursor.marker⟩ next ∧
      next.cursor.rest = [] ∧ Kept state next := by
  let file : Module := ⟨declarations, state.cursor.current⟩
  have readsFile : Reads (do
      let declarations ← declarationsWithin (← remaining)
      make .module ⟨declarations, state.cursor.current⟩ : Parser σ ρ Module) tokens file [] :=
    reads_remaining.2 (reads.bind (reads_make Node.module file []))
  obtain ⟨between, ranRest, stands, kept⟩ := readsFile state ended starts
  have ranFile : (Parser.module : Parser σ ρ Module) state = .ok file between :=
    (bind_ok rfl).trans ranRest
  let whole : Root := ⟨[file], between.cursor.marker⟩
  have readsWhole : Reads (do
      note (.parsedModule file.declarations.length)
      make Node.root whole : Parser σ ρ Root) [] whole [] :=
    (reads_note _ []).bind (reads_make Node.root whole [])
  have endedBetween : between.cursor.marker.kind = .eof := by rw [kept.marker, ended]
  obtain ⟨next, ranWhole, stops, kept'⟩ := readsWhole between endedBetween stands
  refine ⟨state.cursor.current, next, ?_, stops, kept.trans kept'⟩
  rw [← kept.marker]
  exact (bind_ok ranFile).trans ranWhole

end Parser

/-- A fresh parse of tokens gives the declarations that are read from them, up to the marker. -/
theorem Entry.parse_ofReads [Observer σ] [Receiver ρ] {declarations : List Declaration}
    {tokens : List Token}
    (reads : Parser.Reads (Parser.declarationsWithin tokens.length : Parser σ ρ (List Declaration))
      tokens declarations []) {marker : Token} (ended : marker.kind = .eof) (sink : ρ)
    (observed : σ) :
    ∃ boundary after, Entry.file.parse (tokens ++ [marker]) sink observed =
        .ok (.root ⟨[⟨declarations, boundary⟩], marker⟩) after ∧
      after.position = tokens.length ∧ after.sink = sink := by
  let state : Parser.State σ ρ := Parser.State.start (tokens ++ [marker]) sink observed
  have cursor : state.cursor = ⟨[], tokens, marker⟩ := TokenCursor.ofTokens_marked tokens ended
  obtain ⟨boundary, after, run, stops, kept⟩ :=
    Parser.reads_root reads (by rw [cursor]; exact ended) (by rw [cursor])
  have moved := kept.position
  simp only [Parser.State.position, cursor, stops, TokenCursor.position, List.length_nil]
    at moved
  refine ⟨boundary, after, ?_, ?_, kept.sink⟩
  · rw [cursor] at run
    exact Parser.bind_ok run
  · simp only [Parser.State.position, TokenCursor.position]
    omega

/-- A fresh parse of the spelling of a canonical module gives its declarations back without a
report, up to the marker. -/
theorem Entry.parse_canonicalFile [Observer σ] [Receiver ρ] {body : Module}
    (canonical : body.Canonical) {tokens : List Token} (spelled : Spells body.pieces tokens)
    {marker : Token} (ended : marker.kind = .eof) (sink : ρ) (observed : σ) :
    ∃ boundary after, Entry.file.parse (tokens ++ [marker]) sink observed =
        .ok (.root ⟨[⟨body.declarations, boundary⟩], marker⟩) after ∧
      after.position = tokens.length ∧ after.sink = sink :=
  Entry.parse_ofReads (Parser.reads_declarations canonical spelled) ended sink observed

end FrontEnd
