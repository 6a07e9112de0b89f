/-
This file follows the rules of statements, declarations and modules under any receiver.
-/

import FrontEnd.Proofs.Parser.RecoveringExpressions
import FrontEnd.Proofs.Tree.ModuleShape

namespace FrontEnd

/-- Declarations begin with their keywords, so every declaration ends before the next one. -/
theorem Declaration.sequenced {declarations : List Declaration}
    (canonical : ∀ declaration ∈ declarations, declaration.Canonical) :
    Sequenced Declaration.pieces Declaration.EndsBefore [] declarations := by
  induction declarations with
  | nil => trivial
  | cons first rest inductionHypothesis =>
      obtain ⟨-, others⟩ := List.forall_mem_cons.1 canonical
      refine ⟨?_, inductionHypothesis others⟩
      obtain ⟨kind, later, starts, begins⟩ : ∃ kind later,
          (rest.flatMap Declaration.pieces).map Piece.kind ++ [] = later ∧
            later.headD .eof = kind ∧
              (kind = .eof ∨ kind = .keyword .funcWord ∨ kind = .keyword .letWord) := by
        refine ⟨_, _, rfl, rfl, ?_⟩
        cases rest with
        | nil => exact .inl rfl
        | cons second rest =>
            have whole := others second List.mem_cons_self
            cases second with
            | function declared => exact .inr (.inl whole.keyword)
            | «variable» definition => exact .inr (.inr whole.1)
      rw [starts]
      cases first with
      | function declared =>
          refine ⟨fun _ => ?_, fun _ _ => ?_⟩
          all_goals
            rw [begins.1]
            rcases begins.2 with rfl | rfl | rfl <;> simp
      | «variable» definition =>
          refine ⟨fun given _ => Expression.endsBefore_ofEnd ?_ 0 given, fun _ => ?_, fun _ _ => ?_⟩
          all_goals
            rw [begins.1]
            rcases begins.2 with rfl | rfl | rfl <;> first | rfl | simp

namespace Parser

variable {σ ρ α : Type} [Receiver ρ]

/-- An optional part is made after its mark, or the mark is not ahead. -/
theorem gives_optional {kind : TokenKind} (real : kind ≠ .eof) (keeps : kind ≠ .symbol .comma)
    {item : Parser σ ρ α} {pieces : α → List Piece} {slots : α → List Slot}
    {shape : α → List Token → Prop}
    (givesItem : ∀ before, Gives item before fun value after added =>
      Made (pieces value) (slots value) (shape value after) before after added)
    (before : List Token) :
    Gives (optional kind item) before fun found after added =>
      Made (found.toList.flatMap fun value => .mark kind :: pieces value)
          (found.toList.flatMap slots) (∀ value ∈ found, shape value after) before after added ∧
        (found = none → after = before ∧ kindAhead after ≠ kind) := by
  apply (quiet_eat _ before).bind
  intro found middle
  cases found with
  | some token =>
      rintro ⟨same, rfl⟩
      apply (givesItem middle).map
      intro value after added made
      refine ⟨?_, by simp⟩
      simpa using (Made.mark same keeps middle).append made
  | none =>
      rintro ⟨rfl, misses⟩
      exact gives_pure ⟨(Made.nothing middle).mono (by simp), fun _ => ⟨rfl, misses real⟩⟩

variable [Observer σ]

/-- A type accounts for its colon and its name. -/
theorem gives_typeName (before : List Token) :
    Gives (typeName : Parser σ ρ (Option Identifier)) before fun type after added =>
      Made (type.toList.flatMap fun type => .mark (.symbol .colon) :: type.pieces)
          (type.toList.flatMap Identifier.slots)
          (∀ annotation ∈ type, annotation.token.kind = .identifier) before after added ∧
        (type = none → after = before ∧ kindAhead after ≠ .symbol .colon) := by
  have givesItem : ∀ before, Gives (identifier : Parser σ ρ Identifier) before
      fun name after added =>
        Made name.pieces name.slots (name.token.kind = .identifier) before after added :=
    fun before => (gives_identifier before).mono fun _ _ _ named => named.1.mono And.left
  exact gives_optional (by simp) (by simp) givesItem before

/-- A value accounts for its sign and its expression. -/
theorem gives_assigned (before : List Token) :
    Gives (assigned : Parser σ ρ (Option Expression)) before fun value after added =>
      Made (value.toList.flatMap fun value => .mark (.operator .equals) :: value.pieces)
          (value.toList.flatMap Expression.slots)
          (∀ given ∈ value, given.Canonical ∧ given.EndsBefore 0 (after.map Token.kind))
          before after added ∧
        (value = none → after = before ∧ kindAhead after ≠ .operator .equals) := by
  have givesItem : ∀ before, Gives (expression : Parser σ ρ Expression) before
      fun value after added => Made value.pieces value.slots
        (value.Canonical ∧ value.EndsBefore 0 (after.map Token.kind)) before after added :=
    fun before => (gives_expression before).mono fun _ _ _ recovered =>
      recovered.made.mono fun shaped => ⟨shaped.canonical, shaped.ends⟩
  exact gives_optional (by simp) (by simp) givesItem before

/-- What is done with a name, its type and its value is done with a canonical binding. -/
theorem gives_binding {rest : Identifier → Option Identifier → Option Expression → Parser σ ρ α}
    {before : List Token} {condition : α → List Token → List Diagnostic → Prop}
    (givesRest : ∀ name type value after added,
      Made (piecesOfBinding name type value) (slotsOfBinding name type value)
        (BindingCanonical name type value ∧
          BindingEndsBefore type value (after.map Token.kind)) before after added →
      after.length < before.length →
        Gives (rest name type value) after fun value last more =>
          condition value last (added ++ more)) :
    Gives (do
      let name ← identifier
      let type ← typeName
      let value ← assigned
      rest name type value) before condition := by
  apply (gives_identifier before).bind
  rintro name second addedName ⟨madeName, shorter⟩
  apply (gives_typeName second).bind
  rintro type third addedType ⟨madeType, untyped⟩
  apply (gives_assigned third).bind
  rintro value after addedValue ⟨madeValue, unassigned⟩
  have made : Made (piecesOfBinding name type value) (slotsOfBinding name type value)
      (BindingCanonical name type value ∧ BindingEndsBefore type value (after.map Token.kind))
      before after (addedName ++ addedType ++ addedValue) := by
    apply ((madeName.append madeType).append madeValue).mono
    rintro ⟨⟨⟨nameKind, -⟩, typeKind⟩, valueWhole⟩
    refine ⟨⟨nameKind, typeKind, fun given same => (valueWhole given same).1⟩,
      fun given same => (valueWhole given same).2, fun none => (unassigned none).2,
      fun none noType => ?_⟩
    rw [(unassigned none).1]
    exact (untyped noType).2
  have typeLess := madeType.length_le
  have valueLess := madeValue.length_le
  apply (givesRest name type value after _ made (by omega)).mono
  intro given last more meets
  rwa [List.append_assoc, List.append_assoc] at meets

/-- The shape of what the rule of statements gives between two places. -/
structure ShapedStatement (before : List Token) (statement : Statement) (after : List Token) :
    Prop where
  canonical : statement.Canonical
  opens : Opens before statement.pieces
  ends : statement.EndsBefore (after.map Token.kind)

/-- What the rule of statements makes of the tokens between two places, at least one. -/
structure RecoveredStatement (before : List Token) (statement : Statement) (after : List Token)
    (added : List Diagnostic) : Prop where
  made : Made statement.pieces statement.slots (ShapedStatement before statement after)
    before after added
  shorter : after.length < before.length

/-- A statement accounts for its tokens, also for one that was put aside. -/
theorem gives_statement (before : List Token) :
    Gives (statement : Parser σ ρ Statement) before (RecoveredStatement before) := by
  apply (quiet_eat _ before).bind
  intro found middle
  cases found with
  | some keyword =>
      rintro ⟨kind, rfl⟩
      apply (gives_expression middle).make
      intro value after added recovered
      have starts := Made.token kind (by simp) none middle
      have less := recovered.shorter
      refine ⟨(starts.append recovered.made).mono ?_, by rw [List.length_cons]; omega⟩
      rintro ⟨-, shaped⟩
      exact ⟨⟨kind, shaped.canonical⟩, Opens.ofToken (by simp [kind]) _ _, shaped.ends⟩
  | none =>
      rintro ⟨rfl, -⟩
      apply (quiet_eat _ middle).bind
      intro found between
      cases found with
      | some keyword =>
          rintro ⟨kind, rfl⟩
          have starts := Made.token kind (by simp) none between
          have givesVariable : Gives (binding keyword : Parser σ ρ Variable) between
              fun definition after added =>
                RecoveredStatement (keyword :: between) (.variable definition) after added := by
            apply gives_binding
            intro name type value after added made shorter
            refine gives_make ⟨?_, by rw [List.length_cons]; omega⟩
            rw [List.append_nil]
            apply (starts.append made).mono
            rintro ⟨-, canonical, ends⟩
            exact ⟨⟨kind, canonical⟩, Opens.ofToken (by simp [kind]) _ _, ends⟩
          exact givesVariable.map fun _ _ _ recovered => recovered
      | none =>
          rintro ⟨rfl, -⟩
          apply (quiet_eatWhere _ between).bind
          intro found last
          cases found with
          | some token =>
              rintro ⟨-, -, rfl⟩
              apply (gives_report _ last).bind
              rintro _ after _ ⟨rfl, rfl⟩
              exact gives_make ⟨.unusable (.inr rfl) _ _, by simp⟩
          | none =>
              rintro ⟨rfl, -⟩
              apply (gives_expression last).map
              intro value after added recovered
              exact ⟨recovered.made.mono fun shaped =>
                ⟨shaped.canonical, shaped.opens, shaped.ends⟩, recovered.shorter⟩

/-- Statements stand one after the other, and each ends before the next one. -/
theorem Trail.statements {before after : List Token} {statements : List Statement}
    {added : List Diagnostic} (trail : Trail RecoveredStatement before statements after added) :
    Made (statements.flatMap Statement.pieces) (statements.flatMap Statement.slots)
      ((∀ statement ∈ statements, statement.Canonical) ∧
        Sequenced Statement.pieces Statement.EndsBefore [.bracket .closeCurly] statements ∧
        (statements ≠ [] → Opens before (statements.flatMap Statement.pieces)))
      before after added := by
  induction trail with
  | nil before => exact (Made.nothing before).mono fun _ => ⟨by simp, trivial, by simp⟩
  | @cons before middle after first others added more recovered _ inductionHypothesis =>
      apply (recovered.made.append inductionHypothesis).mono
      rintro ⟨shaped, canonical, sequenced, opens⟩
      refine ⟨List.forall_mem_cons.2 ⟨shaped.canonical, canonical⟩, ⟨?_, sequenced⟩,
        fun _ => shaped.opens.append _⟩
      cases others with
      | nil => exact first.endsBefore_ofEnd rfl (by simp)
      | cons second others => exact shaped.ends.alike (opens (by simp) _)

/-- A block accounts for its brackets and its statements. -/
theorem gives_block (before : List Token) :
    Gives (block : Parser σ ρ Block) before fun body after added =>
      Made body.pieces body.slots body.Canonical before after added := by
  apply (gives_expectBracket _ before).bind
  rintro opening middle addedOpening ⟨starts, -⟩
  refine (gives_items (fun before _ => gives_statement before)
    (fun _ _ _ _ recovered => recovered.shorter) middle le_rfl).bind ?_
  rintro statements second addedStatements ⟨trail, -⟩
  have made := (trail.mono fun _ _ _ _ linked => linked.2).statements
  apply (gives_expectBracket _ second).make
  rintro close after addedClose ⟨stops, -⟩
  apply (starts.append (made.append stops)).mono
  rintro ⟨openingKind, ⟨canonical, sequenced, -⟩, closeKind⟩
  exact ⟨openingKind, canonical, sequenced, closeKind⟩

theorem gives_parameterList (before : List Token) :
    Gives (parameterList : Parser σ ρ ParameterList) before fun list after added =>
      Made list.pieces list.slots list.Canonical before after added := by
  apply (gives_expectBracket _ before).bind
  rintro opening middle added ⟨starts, -⟩
  have givesParameter : ∀ before : List Token, before.length ≤ middle.length →
      Gives (parameter : Parser σ ρ Parameter) before fun parameter after added =>
        Made parameter.pieces parameter.slots parameter.Canonical before after added ∧
          after.length < before.length := by
    intro before _
    apply gives_binding
    intro name type value after added made shorter
    refine gives_make ⟨?_, shorter⟩
    rw [List.append_nil]
    exact made.mono And.left
  apply gives_closedList givesParameter middle le_rfl
  intro parameters close after more closes
  refine gives_make ?_
  rw [List.append_nil]
  apply (starts.append closes).mono
  rintro ⟨openingKind, canonical, closeKind⟩
  exact ⟨openingKind, canonical, closeKind⟩

/-- A function accounts for its keyword and its parts. -/
theorem gives_function {keyword : Token} (kind : keyword.kind = .keyword .funcWord)
    (before : List Token) :
    Gives (function keyword : Parser σ ρ FunctionDeclaration) before fun declared after added =>
      Made declared.pieces declared.slots declared.Canonical (keyword :: before) after added ∧
        after.length < before.length := by
  apply (gives_identifier before).bind
  rintro name middle _ ⟨madeName, shorter⟩
  apply (gives_parameterList middle).bind
  intro parameters second _ madeParameters
  apply (gives_typeName second).bind
  rintro result third _ ⟨madeResult, -⟩
  have givesItem : ∀ before, Gives (block : Parser σ ρ Block) before fun body after added =>
      Made body.pieces body.slots body.Canonical before after added := gives_block
  apply (gives_optional (by simp) (by simp) givesItem third).make
  rintro body after _ ⟨madeBody, -⟩
  have starts := Made.token kind (by simp) none before
  have made := starts.append (((madeName.append madeParameters).append madeResult).append madeBody)
  have parametersLess := madeParameters.length_le
  have resultLess := madeResult.length_le
  have bodyLess := madeBody.length_le
  rw [← List.append_assoc, ← List.append_assoc]
  refine ⟨made.mono ?_, by omega⟩
  rintro ⟨-, ⟨⟨⟨nameKind, -⟩, parametersCanonical⟩, resultKind⟩, bodyCanonical⟩
  exact ⟨kind, nameKind, parametersCanonical, resultKind, bodyCanonical⟩

/-- Declarations stop at the end, or at a token that starts none, which is reported last. -/
def Stops (after : List Token) (last : List Diagnostic) : Prop :=
  (kindAhead after = .eof ∧ last = []) ∨
    ∃ token rest, after = token :: rest ∧ token.kind ≠ .eof ∧
      last = [⟨token.offset, 1, .expectedDeclaration⟩]

/-- What the rule of declarations makes of the tokens between two places, with the report on the
token where it stops. -/
def RecoveredDeclarations (before : List Token) (declarations : List Declaration)
    (after : List Token) (added : List Diagnostic) : Prop :=
  ∃ inside last, added = inside ++ last ∧ Stops after last ∧
    Made (declarations.flatMap Declaration.pieces) (declarations.flatMap Declaration.slots)
      (∀ declaration ∈ declarations, declaration.Canonical) before after inside

/-- A declaration before others accounts for its tokens before theirs. -/
theorem RecoveredDeclarations.cons {before middle after : List Token} {first : Declaration}
    {rest : List Declaration} {added more : List Diagnostic}
    (made : Made first.pieces first.slots first.Canonical before middle added)
    (others : RecoveredDeclarations middle rest after more) :
    RecoveredDeclarations before (first :: rest) after (added ++ more) := by
  obtain ⟨inside, last, rfl, stops, madeOthers⟩ := others
  refine ⟨added ++ inside, last, (List.append_assoc _ _ _).symm, stops, ?_⟩
  exact (made.append madeOthers).mono List.forall_mem_cons.2

/-- By induction on the bound, declarations account for their tokens up to one that starts none. -/
theorem gives_declarationsWithin (count : Nat) (before : List Token)
    (counted : before.length ≤ count) :
    Gives (declarationsWithin count : Parser σ ρ (List Declaration)) before
      (RecoveredDeclarations before) := by
  induction count generalizing before with
  | zero =>
      obtain rfl := List.eq_nil_of_length_eq_zero (Nat.le_zero.1 counted)
      exact gives_pure ⟨[], [], rfl, .inl ⟨rfl, rfl⟩, (Made.nothing []).mono (by simp)⟩
  | succ count inductionHypothesis =>
      apply (quiet_hasNext before).bind
      rintro more middle ⟨rfl, shows⟩
      cases more with
      | false =>
          have ended : kindAhead middle = .eof := by
            by_contra goesOn
            exact absurd (shows.2 goesOn) (by simp)
          exact gives_pure
            ⟨[], [], rfl, .inl ⟨ended, rfl⟩, (Made.nothing middle).mono (by simp)⟩
      | true =>
          have goesOn : kindAhead middle ≠ .eof := shows.1 rfl
          apply (quiet_eat _ middle).bind
          intro found second
          cases found with
          | some keyword =>
              rintro ⟨kind, rfl⟩
              rw [List.length_cons] at counted
              apply (gives_function kind second).bind
              rintro declared third added ⟨made, shorter⟩
              apply (inductionHypothesis third (by omega)).map
              intro rest after others recovered
              exact .cons made recovered
          | none =>
              rintro ⟨rfl, -⟩
              apply (quiet_eat _ second).bind
              intro found third
              cases found with
              | some keyword =>
                  rintro ⟨kind, rfl⟩
                  rw [List.length_cons] at counted
                  have starts := Made.token kind (by simp) none third
                  have givesVariable : Gives (binding keyword : Parser σ ρ Variable) third
                      fun definition after added =>
                        Made definition.pieces definition.slots definition.Canonical
                          (keyword :: third) after added ∧ after.length < third.length := by
                    apply gives_binding
                    intro name type value after added made shorter
                    refine gives_make ⟨?_, shorter⟩
                    rw [List.append_nil]
                    apply (starts.append made).mono
                    rintro ⟨-, canonical, -⟩
                    exact ⟨kind, canonical⟩
                  apply givesVariable.bind
                  rintro definition fourth added ⟨made, shorter⟩
                  apply (inductionHypothesis fourth (by omega)).map
                  intro rest after others recovered
                  exact .cons made recovered
              | none =>
                  rintro ⟨rfl, -⟩
                  apply (quiet_current third).bind
                  rintro token after ⟨rfl, -, first⟩
                  cases after with
                  | nil => exact absurd rfl goesOn
                  | cons next later =>
                      obtain rfl := first next later rfl
                      apply (gives_report _ _).map
                      rintro _ _ _ ⟨rfl, rfl⟩
                      exact ⟨[], _, rfl, .inr ⟨token, later, rfl, goesOn, rfl⟩,
                        (Made.nothing _).mono (by simp)⟩

/-- The declarations of a file are its one module, which starts at the current token. -/
theorem root_eq_ok {state next : State σ ρ} {whole : Root} (ran : root state = .ok whole next) :
    ∃ declarations between,
      declarationsWithin state.cursor.remaining state = .ok declarations between ∧
        whole = ⟨[⟨declarations, state.cursor.current⟩], between.cursor.marker⟩ ∧
        next.cursor = between.cursor ∧ next.sink = between.sink := by
  obtain ⟨body, made, ranModule, finished⟩ := bind_eq_ok.1 ran
  obtain ⟨boundary, _, looked, ranRest⟩ := bind_eq_ok.1 ranModule
  cases looked
  obtain ⟨count, _, counted, ranLoop⟩ := bind_eq_ok.1 ranRest
  cases counted
  obtain ⟨declarations, between, ranDeclarations, finishedModule⟩ := bind_eq_ok.1 ranLoop
  cases finishedModule
  cases finished
  exact ⟨declarations, between, ranDeclarations, rfl, rfl, rfl⟩

end Parser

end FrontEnd
