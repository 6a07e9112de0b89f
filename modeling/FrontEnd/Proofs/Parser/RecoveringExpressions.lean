/-
This file follows the rules of expressions under any receiver. Where only brackets are missing,
what a rule gives is canonical and ends before the tokens that are left.
-/

import FrontEnd.Proofs.Binary64.RoundTrip
import FrontEnd.Proofs.Parser.Making
import FrontEnd.Proofs.Parser.ReadingExpressions

namespace FrontEnd

/-- A place after which one cannot see more than the kind ahead. -/
theorem LookAlike.ofHead {kind : TokenKind} (noSign : ∀ sign, kind ≠ .operator sign)
    (later later' : List TokenKind) : LookAlike (kind :: later) (kind :: later') :=
  ⟨rfl, fun sign same => absurd same (noSign sign)⟩

/-- Whatever comes after some pieces, from their start one sees what one sees from a place. -/
def Opens (before : List Token) (pieces : List Piece) : Prop :=
  ∀ ahead, LookAlike (before.map Token.kind) (pieces.map Piece.kind ++ ahead)

/-- How pieces open is told by the first ones. -/
theorem Opens.append {before : List Token} {pieces : List Piece} (opens : Opens before pieces)
    (more : List Piece) : Opens before (pieces ++ more) := by
  intro ahead
  rw [List.map_append, List.append_assoc]
  exact opens _

theorem Opens.cons {token : Token} {rest : List Token} {pieces : List Piece}
    (opens : Opens rest pieces) : Opens (token :: rest) (.stored token :: pieces) :=
  fun ahead => (opens ahead).append [token.kind]

/-- A token that is no sign opens as itself. -/
theorem Opens.ofToken {token : Token} (noSign : ∀ sign, token.kind ≠ .operator sign)
    (rest : List Token) (pieces : List Piece) : Opens (token :: rest) (.stored token :: pieces) :=
  fun _ => LookAlike.ofHead noSign _ _

namespace Parser

variable {σ ρ α : Type} [Receiver ρ]

/-- The shape of what the rule of a rank gives between two places. It ends before whatever binds
looser than a limit. -/
structure Shaped (rank limit : Nat) (before : List Token) (value : Expression)
    (after : List Token) : Prop where
  canonical : value.Canonical
  tight : rank ≤ value.rank
  opens : Opens before value.pieces
  ends : value.EndsBefore limit (after.map Token.kind)

/-- The shape of primary expressions and calls, before the loop of calls is done. -/
structure ShapedOperand (before : List Token) (value : Expression) : Prop where
  canonical : value.Canonical
  tight : value.rank = 10
  opens : Opens before value.pieces

/-- A single token is an operand that nothing could split. -/
theorem ShapedOperand.ofToken {value : Expression} {token : Token} {rest : List Token}
    (canonical : value.Canonical) (tight : value.rank = 10)
    (pieces : value.pieces = [.stored token]) (noSign : ∀ sign, token.kind ≠ .operator sign) :
    ShapedOperand (token :: rest) value :=
  ⟨canonical, tight, pieces ▸ Opens.ofToken noSign rest []⟩

/-- What the rule of a rank makes of the tokens between two places, at least one. -/
structure Recovered (rank : Nat) (before : List Token) (value : Expression) (after : List Token)
    (added : List Diagnostic) : Prop where
  made : Made value.pieces value.slots (Shaped rank rank before value after) before after added
  shorter : after.length < before.length

/-- What the rules of operands make of the tokens between two places, at least one. -/
structure RecoveredOperand (before : List Token) (value : Expression) (after : List Token)
    (added : List Diagnostic) : Prop where
  made : Made value.pieces value.slots (ShapedOperand before value) before after added
  shorter : after.length < before.length

/-- A literal is made of its token. -/
theorem RecoveredOperand.ofToken {value : Expression} {token : Token} {kind : LiteralKind}
    (canonical : value.Canonical) (tight : value.rank = 10)
    (pieces : value.pieces = [.stored token]) (slots : value.slots = [⟨none, token⟩])
    (same : token.kind = .literal kind) (rest : List Token) :
    RecoveredOperand (token :: rest) value rest [] := by
  refine ⟨?_, by simp⟩
  have shaped : ShapedOperand (token :: rest) value :=
    .ofToken canonical tight pieces (by simp [same])
  rw [pieces, slots]
  exact (Made.token same (by simp) none rest).mono fun _ => shaped

/-- The value of a number that is written in a text is given without a report. -/
theorem gives_numberValue {token : Token} (kind : token.kind = .literal .number)
    (before : List Token) :
    Gives (numberValue token : Parser σ ρ Binary64) before fun value after added =>
      after = before ∧ ((Binary64.read? token.lexeme = some value ∧ added = []) ∨
        (added ≠ [] ∧ ¬token.WellSpelled)) := by
  unfold numberValue
  cases found : Binary64.read? token.lexeme with
  | some value => exact gives_pure ⟨rfl, .inl ⟨rfl, rfl⟩⟩
  | none =>
      have malformed : ¬token.WellSpelled := by
        intro well
        have numeral := well.spelled
        rw [kind] at numeral
        obtain ⟨value, read⟩ := Binary64.exists_read? numeral
        rw [found] at read
        cases read
      apply (gives_report _ before).map
      rintro _ after added ⟨rfl, rfl⟩
      exact ⟨rfl, .inr ⟨by simp, malformed⟩⟩

/-- A keyword that is missing is reported and has no place of its own. -/
theorem gives_passKeyword {keyword : Keyword} {code : Code} (omits : code.isOmission)
    (before : List Token) :
    Gives (passKeyword keyword code : Parser σ ρ Unit) before fun _ after added =>
      Made [.mark (.keyword keyword)] [] True before after added := by
  apply (quiet_eat _ before).bind
  intro found middle
  cases found with
  | some token =>
      rintro ⟨kind, rfl⟩
      exact gives_pure (.mark kind (by simp) middle)
  | none =>
      rintro ⟨rfl, -⟩
      apply (quiet_current middle).bind
      rintro token after ⟨rfl, -⟩
      apply (gives_report _ after).mono
      rintro _ _ _ ⟨rfl, rfl⟩
      exact Made.omission omits _ _

variable [Observer σ]

/-- A name is taken as it is, or a placeholder stands for what was taken. -/
theorem gives_identifier (before : List Token) :
    Gives (identifier : Parser σ ρ Identifier) before fun name after added =>
      Made name.pieces name.slots (name.token.kind = .identifier ∧ before = name.token :: after)
          before after added ∧
        after.length < before.length := by
  apply (quiet_eat _ before).bind
  intro found middle
  cases found with
  | some token =>
      rintro ⟨kind, rfl⟩
      exact gives_make ⟨(Made.token kind (by simp) _ middle).mono fun _ => ⟨kind, rfl⟩, by simp⟩
  | none =>
      rintro ⟨rfl, -⟩
      apply (quiet_advance middle).bind
      rintro token after ⟨-, rfl⟩
      apply (gives_report _ after).bind
      rintro _ last _ ⟨rfl, rfl⟩
      exact gives_make ⟨.unusable (.inl rfl) _ _, by simp⟩

/-- A literal, a name or a placeholder accounts for its token. -/
theorem gives_literal (before : List Token) :
    Gives (literal : Parser σ ρ Expression) before (RecoveredOperand before) := by
  apply (quiet_eat _ before).bind
  intro found middle
  cases found with
  | some token =>
      rintro ⟨kind, rfl⟩
      apply (gives_numberValue kind middle).make
      rintro value after added ⟨rfl, ⟨decoded, rfl⟩ | ⟨reported, malformed⟩⟩
      · exact .ofToken (.number kind decoded) rfl rfl rfl kind after
      · have unwritten : ¬Written (token :: after) := fun written =>
          malformed (written token List.mem_cons_self)
        exact ⟨⟨⟨List.suffix_cons token after, fun written => absurd written unwritten,
          fun written => absurd written unwritten,
          fun sound => absurd (sound.resolve_left reported).1 unwritten⟩,
          fun none => absurd none reported⟩, by simp⟩
  | none =>
      rintro ⟨rfl, -⟩
      apply (quiet_eat _ middle).bind
      intro found middle
      cases found with
      | some token =>
          rintro ⟨kind, rfl⟩
          exact gives_make (.ofToken (.boolean kind rfl) rfl rfl rfl kind middle)
      | none =>
          rintro ⟨rfl, -⟩
          apply (quiet_eat _ middle).bind
          intro found middle
          cases found with
          | some token =>
              rintro ⟨kind, rfl⟩
              exact gives_make (.ofToken (.string kind rfl) rfl rfl rfl kind middle)
          | none =>
              rintro ⟨rfl, -⟩
              apply (gives_identifier middle).map
              rintro name after added ⟨made, shorter⟩
              refine ⟨made.mono ?_, shorter⟩
              rintro ⟨kind, rfl⟩
              exact .ofToken (.identifier kind) rfl rfl (by simp [kind])

section Rules

variable {inner : Parser σ ρ Expression} {bound : Nat}
variable (givesInner : ∀ before, before.length ≤ bound →
  Gives inner before (Recovered 0 before))

include givesInner

/-- A group accounts for its parentheses and its content. -/
theorem gives_primary (before : List Token) (within : before.length ≤ bound + 1) :
    Gives (primary inner) before (RecoveredOperand before) := by
  apply (quiet_eat _ before).bind
  intro found middle
  cases found with
  | none =>
      rintro ⟨rfl, -⟩
      exact gives_literal middle
  | some opening =>
      rintro ⟨openingKind, rfl⟩
      rw [List.length_cons] at within
      apply (givesInner middle (by omega)).bind
      intro content between added recovered
      apply (gives_expectBracket _ between).make
      rintro close after more ⟨closes, -⟩
      have starts := Made.token openingKind (by simp) none middle
      have below := closes.length_le
      have less := recovered.shorter
      refine ⟨(starts.append (recovered.made.append closes)).mono ?_, ?_⟩
      · rintro ⟨-, shaped, closeKind⟩
        exact ⟨.group openingKind shaped.canonical closeKind, rfl,
          Opens.ofToken (by simp [openingKind]) _ _⟩
      · rw [List.length_cons]
        omega

/-- The loop of calls gives an operand that nothing extends but a sign after it. -/
theorem gives_callWithin {whole before : List Token} {receiver : Expression}
    {added : List Diagnostic} (count : Nat) (counted : before.length ≤ count)
    (within : before.length ≤ bound + 1)
    (recovered : RecoveredOperand whole receiver before added) :
    Gives (callWithin inner count receiver) before fun value after more =>
      RecoveredOperand whole value after (added ++ more) ∧
        kindAhead after ≠ .bracket .openParen ∧ kindAhead after ≠ .symbol .dot := by
  induction count generalizing before receiver added with
  | zero =>
      obtain rfl := List.eq_nil_of_length_eq_zero (Nat.le_zero.1 counted)
      refine gives_pure ⟨?_, by simp, by simp⟩
      rwa [List.append_nil]
  | succ count inductionHypothesis =>
      apply (quiet_eat _ before).bind
      intro found middle
      cases found with
      | some opening =>
          rintro ⟨openingKind, rfl⟩
          rw [List.length_cons] at counted within
          have givesItem : ∀ before, before.length ≤ bound →
              Gives inner before fun value after added =>
                Made value.pieces value.slots value.Canonical before after added ∧
                  after.length < before.length := fun before within =>
            (givesInner before within).mono fun _ _ _ recovered =>
              ⟨recovered.made.mono Shaped.canonical, recovered.shorter⟩
          apply gives_closedList givesItem middle (by omega)
          intro arguments close after more closes
          have starts := Made.mark openingKind (by simp) middle
          have below := closes.length_le
          have less := recovered.shorter
          rw [List.length_cons] at less
          have called : RecoveredOperand whole (.call receiver arguments close) after
              (added ++ more) := by
            refine ⟨?_, by omega⟩
            rw [Expression.pieces, Expression.piecesOfAll_eq_map, Expression.slots,
              Expression.slotsOfAll_eq_flatMap]
            apply (recovered.made.append (starts.append closes)).mono
            rintro ⟨shaped, -, argumentsCanonical, closeKind⟩
            refine ⟨.call shaped.canonical shaped.tight argumentsCanonical closeKind, rfl, ?_⟩
            exact shaped.opens.append _
          apply Gives.afterMake
          apply (inductionHypothesis (by omega) (by omega) called).mono
          intro value last others meets
          rwa [← List.append_assoc]
      | none =>
          rintro ⟨rfl, noCall⟩
          apply (quiet_eat _ middle).bind
          intro found between
          cases found with
          | some dot =>
              rintro ⟨dotKind, rfl⟩
              rw [List.length_cons] at counted within
              apply (gives_identifier between).bind
              rintro name after more ⟨named, shorter⟩
              have starts := Made.mark dotKind (by simp) between
              have less := recovered.shorter
              rw [List.length_cons] at less
              have taken : RecoveredOperand whole (.property receiver name) after
                  (added ++ more) := by
                refine ⟨(recovered.made.append (starts.append named)).mono ?_, by omega⟩
                rintro ⟨shaped, -, kind, -⟩
                exact ⟨.property shaped.canonical shaped.tight kind, rfl, shaped.opens.append _⟩
              apply Gives.afterMake
              apply (inductionHypothesis (by omega) (by omega) taken).mono
              intro value last others meets
              rwa [← List.append_assoc]
          | none =>
              rintro ⟨rfl, noProperty⟩
              refine gives_pure ⟨?_, noCall (by simp), noProperty (by simp)⟩
              rwa [List.append_nil]

/-- Behind a chain of calls neither another call nor a property follows. -/
theorem gives_call (before : List Token) (within : before.length ≤ bound + 1) :
    Gives (call inner) before fun value after added =>
      RecoveredOperand before value after added ∧
        kindAhead after ≠ .bracket .openParen ∧ kindAhead after ≠ .symbol .dot := by
  apply (gives_primary givesInner before within).bind
  intro receiver middle added recovered
  apply (quiet_remaining middle).bind
  rintro count after ⟨rfl, rfl⟩
  have less := recovered.shorter
  exact gives_callWithin givesInner _ le_rfl (by omega) recovered

/-- A sign behind an operand is the last token of the expression. -/
theorem gives_postfixed (before : List Token) (within : before.length ≤ bound + 1) :
    Gives (postfixed (call inner)) before (Recovered 9 before) := by
  apply (gives_call givesInner before within).bind
  rintro value middle added ⟨recovered, noCall, noProperty⟩
  have shorter := recovered.shorter
  apply gives_cursor
  intro cursor ended stands
  rw [closesOperand_eq ended, stands]
  cases closes : closesAhead (middle.map Token.kind) with
  | false =>
      refine gives_pure ⟨?_, shorter⟩
      rw [List.append_nil]
      apply recovered.made.mono
      intro shaped
      have whole := shaped.canonical.endsInPostfix_eq_false shaped.tight
      have free := shaped.canonical.endsInConditional_eq_false (by rw [shaped.tight]; decide)
      refine ⟨shaped.canonical, by rw [shaped.tight]; decide, shaped.opens, ?_, ?_, ?_⟩
      · intro operation found
        have low := (rank_of_operationAhead? found).1
        rw [free]
        exact low.trans (by decide)
      · exact fun _ => extendsOperand_eq_false.2 ⟨noCall, noProperty, closes⟩
      · exact fun closed => absurd (whole.symm.trans closed) (by decide)
  | true =>
      obtain ⟨sign, member, ahead, free⟩ := closesAhead_iff.1 closes
      apply (quiet_advance middle).bind
      rintro token after ⟨-, rfl⟩
      have kind : token.kind = .operator sign := ahead
      obtain ⟨meaning, means⟩ := mem_postfixSigns.1 member
      have meansToken := Token.operation?_eq_some.2 ⟨sign, kind, means⟩
      apply (quiet_operation meansToken after).bind
      rintro meaning after ⟨rfl, rfl⟩
      have stops := Made.token kind (by simp) none after
      rw [List.length_cons] at shorter
      refine gives_make ⟨(recovered.made.append stops).mono ?_, by omega⟩
      rintro ⟨shaped, -⟩
      refine ⟨.postfixed meansToken shaped.canonical shaped.tight, le_rfl,
        shaped.opens.append _, ?_, ?_, fun _ => free⟩
      · intro operation found
        have low : operation.rank < 9 := (rank_of_operationAhead? found).1.trans (by decide)
        exact low
      · intro unclosed
        simp [Expression.endsInPostfix] at unclosed

/-- Signs are taken as long as there are some, so the bound does not matter. -/
theorem gives_prefixedWithin (count : Nat) (before : List Token)
    (within : before.length ≤ bound + 1) :
    Gives (prefixedWithin (postfixed (call inner)) count) before (Recovered 8 before) := by
  have givesOperand : ∀ before : List Token, before.length ≤ bound + 1 →
      Gives (postfixed (call inner)) before (Recovered 8 before) := by
    intro before within
    apply (gives_postfixed givesInner before within).mono
    intro value after added recovered
    refine ⟨recovered.made.mono fun shaped => ?_, recovered.shorter⟩
    refine ⟨shaped.canonical, Nat.le_of_succ_le shaped.tight, shaped.opens, ?_,
      shaped.ends.complete, shaped.ends.closed⟩
    intro operation found
    have low := (rank_of_operationAhead? found).1
    have free := shaped.canonical.endsInConditional_eq_false
      (le_trans (by decide) shaped.tight)
    rw [free]
    exact low
  induction count generalizing before with
  | zero => exact givesOperand before within
  | succ count inductionHypothesis =>
      apply (quiet_eatOneOf _ before).bind
      intro found middle
      cases found with
      | none =>
          rintro ⟨rfl, -⟩
          exact givesOperand middle within
      | some token =>
          rintro ⟨⟨sign, member, kind⟩, rfl⟩
          rw [List.length_cons] at within
          obtain ⟨meaning, means⟩ := mem_prefixSigns.1 member
          have meansToken := Token.operation?_eq_some.2 ⟨sign, kind, means⟩
          apply (quiet_operation meansToken middle).bind
          rintro _ after ⟨rfl, rfl⟩
          apply (inductionHypothesis after (by omega)).make
          intro operand last added recovered
          have starts := Made.token kind (by simp) none after
          have less := recovered.shorter
          refine ⟨(starts.append recovered.made).mono ?_, by rw [List.length_cons]; omega⟩
          rintro ⟨-, shaped⟩
          exact ⟨.prefixed meansToken shaped.canonical shaped.tight, le_rfl, shaped.opens.cons,
            shaped.ends.looser, shaped.ends.complete, shaped.ends.closed⟩

end Rules

section Binary

variable {operand : Parser σ ρ Expression} {limit rank : Nat}
variable (givesOperand : ∀ before : List Token, before.length ≤ limit →
  Gives operand before (Recovered (rank + 1) before))
variable (low : rank < 8)

include givesOperand low

/-- The loop of signs holds an expression of its rank that ends before looser operators. -/
theorem gives_binaryWithin {whole before : List Token} {left : Expression}
    {added : List Diagnostic} (count : Nat) (counted : before.length ≤ count)
    (within : before.length ≤ limit) (shorter : before.length < whole.length)
    (made : Made left.pieces left.slots (Shaped rank (rank + 1) whole left before)
      whole before added) :
    Gives (binaryWithin (signs rank) operand count left) before fun value after more =>
      Recovered rank whole value after (added ++ more) := by
  induction count generalizing before left added with
  | zero =>
      obtain rfl := List.eq_nil_of_length_eq_zero (Nat.le_zero.1 counted)
      refine gives_pure ⟨?_, shorter⟩
      rw [List.append_nil]
      exact made.mono fun shaped =>
        ⟨shaped.canonical, shaped.tight, shaped.opens, Expression.endsBefore_ofEnd rfl rank left⟩
  | succ count inductionHypothesis =>
      apply (quiet_eatOneOf _ before).bind
      intro found middle
      cases found with
      | none =>
          rintro ⟨rfl, misses⟩
          refine gives_pure ⟨?_, shorter⟩
          rw [List.append_nil]
          apply made.mono
          intro shaped
          refine ⟨shaped.canonical, shaped.tight, shaped.opens, ?_, shaped.ends.complete,
            shaped.ends.closed⟩
          intro operation found
          obtain ⟨sign, ahead, meaning⟩ := operationAhead?_eq_some.1 found
          have other : operation.rank ≠ rank := fun same =>
            misses sign ahead ((mem_signs low).2 ⟨operation, meaning, same⟩)
          have below := shaped.ends.looser operation found
          by_cases blocked : left.endsInConditional
          · rwa [if_pos blocked] at below ⊢
          · rw [if_neg blocked] at below ⊢
            omega
      | some token =>
          rintro ⟨⟨sign, member, kind⟩, rfl⟩
          rw [List.length_cons] at counted within shorter
          obtain ⟨meaning, means, rankOfSign⟩ := (mem_signs low).1 member
          have meansToken := Token.operation?_eq_some.2 ⟨sign, kind, means⟩
          apply (quiet_operation meansToken middle).bind
          rintro meaning after ⟨rfl, rfl⟩
          apply (givesOperand after (by omega)).bind
          intro right last more recovered
          have less := recovered.shorter
          have passes := Made.token kind (by simp) none after
          have joined : Made (Expression.binary left meaning token right).pieces
              (Expression.binary left meaning token right).slots
              (Shaped rank (rank + 1) whole (.binary left meaning token right) last)
              whole last (added ++ more) := by
            apply (made.append (passes.append recovered.made)).mono
            rintro ⟨shaped, -, shapedRight⟩
            have free : left.endsInConditional = false := by
              have below := shaped.ends.looser meaning
                (operationAhead?_eq_some.2 ⟨sign, kind, means⟩)
              by_contra blocked
              rw [Bool.not_eq_false] at blocked
              rw [if_pos blocked] at below
              omega
            have tight := shaped.tight
            have tightRight := shapedRight.tight
            refine ⟨.binary meansToken shaped.canonical shapedRight.canonical (by omega)
              (by omega) fun _ => free, rankOfSign.ge, shaped.opens.append _, ?_⟩
            exact ⟨shapedRight.ends.looser, shapedRight.ends.complete, shapedRight.ends.closed⟩
          apply Gives.afterMake
          apply (inductionHypothesis (by omega) (by omega) (by omega) joined).mono
          intro value after others meets
          rwa [← List.append_assoc]

/-- A chain of a rank accounts for its operators and its operands. -/
theorem gives_binary (before : List Token) (within : before.length ≤ limit) :
    Gives (binary (signs rank) operand) before (Recovered rank before) := by
  apply (givesOperand before within).bind
  intro left middle added recovered
  have less := recovered.shorter
  apply (quiet_remaining middle).bind
  rintro count after ⟨rfl, rfl⟩
  refine gives_binaryWithin givesOperand low _ le_rfl (by omega) less ?_
  exact recovered.made.mono fun shaped =>
    ⟨shaped.canonical, Nat.le_of_succ_le shaped.tight, shaped.opens, shaped.ends⟩

end Binary

section Whole

variable {inner : Parser σ ρ Expression} {bound : Nat}
variable (givesInner : ∀ before, before.length ≤ bound →
  Gives inner before (Recovered 0 before))

include givesInner

/-- The rules between a conditional and a prefix give expressions of their ranks. -/
theorem gives_disjunction (before : List Token) (within : before.length ≤ bound + 1) :
    Gives (disjunction inner) before (Recovered 2 before) := by
  have givesFrom : ∀ rank ≤ 8, 2 ≤ rank → ∀ before : List Token, before.length ≤ bound + 1 →
      Gives (atRank inner rank) before (Recovered rank before) := by
    intro rank le tight
    induction le using Nat.decreasingInduction with
    | self =>
        intro before within
        apply (quiet_remaining before).bind
        rintro count after ⟨rfl, rfl⟩
        exact gives_prefixedWithin givesInner _ after within
    | of_succ rank below inductionHypothesis =>
        intro before within
        rw [atRank_binary inner below (by omega)]
        exact gives_binary (inductionHypothesis (by omega)) below before within
  exact givesFrom 2 (by decide) le_rfl before within

/-- A conditional accounts for its keywords and its parts. -/
theorem gives_conditional (before : List Token) (within : before.length ≤ bound + 1) :
    Gives (conditional inner) before (Recovered 1 before) := by
  apply (quiet_eat _ before).bind
  intro found middle
  cases found with
  | none =>
      rintro ⟨rfl, -⟩
      apply (gives_disjunction givesInner middle within).mono
      intro value after added recovered
      refine ⟨recovered.made.mono fun shaped => ?_, recovered.shorter⟩
      refine ⟨shaped.canonical, Nat.le_of_succ_le shaped.tight, shaped.opens, ?_,
        shaped.ends.complete, shaped.ends.closed⟩
      intro operation found
      have loops := (rank_of_operationAhead? found).2
      have below := shaped.ends.looser operation found
      have free := shaped.canonical.endsInConditional_eq_false shaped.tight
      rw [free] at below ⊢
      simp only [Bool.false_eq_true, if_false] at below ⊢
      omega
  | some keyword =>
      rintro ⟨kind, rfl⟩
      rw [List.length_cons] at within
      apply (givesInner middle (by omega)).bind
      intro condition second _ recoveredCondition
      have := recoveredCondition.shorter
      apply (gives_passKeyword rfl second).bind
      intro _ third _ passesThen
      have := passesThen.length_le
      apply (givesInner third (by omega)).bind
      intro consequent fourth _ recoveredConsequent
      have := recoveredConsequent.shorter
      apply (gives_passKeyword rfl fourth).bind
      intro _ fifth _ passesElse
      have := passesElse.length_le
      apply (givesInner fifth (by omega)).make
      intro alternative after _ recoveredAlternative
      have := recoveredAlternative.shorter
      have starts := Made.token kind (by simp) none middle
      refine ⟨(starts.append (recoveredCondition.made.append (passesThen.append
        (recoveredConsequent.made.append (passesElse.append
          recoveredAlternative.made))))).mono ?_, by rw [List.length_cons]; omega⟩
      rintro ⟨-, shapedCondition, -, shapedConsequent, -, shapedAlternative⟩
      refine ⟨.conditional kind shapedCondition.canonical shapedConsequent.canonical
        shapedAlternative.canonical, le_rfl, Opens.ofToken (by simp [kind]) _ _, ?_,
        shapedAlternative.ends.complete, shapedAlternative.ends.closed⟩
      intro operation found
      have below := shapedAlternative.ends.looser operation found
      rw [ite_self] at below
      exact absurd below (Nat.not_lt_zero _)

theorem gives_assignment (before : List Token) (within : before.length ≤ bound + 1) :
    Gives (assignment inner) before (Recovered 0 before) :=
  gives_binary (gives_conditional givesInner) (by decide) before within

end Whole

/-- The depth of expressions is bounded by their tokens, so the bound is never reached early. -/
theorem gives_expressionWithin (bound : Nat) (before : List Token)
    (within : before.length ≤ bound) :
    Gives (expressionWithin bound : Parser σ ρ Expression) before (Recovered 0 before) := by
  induction bound generalizing before with
  | zero =>
      obtain rfl := List.eq_nil_of_length_eq_zero (Nat.le_zero.1 within)
      apply (gives_identifier []).map
      rintro name after _ ⟨-, never⟩
      cases never
  | succ bound inductionHypothesis => exact gives_assignment inductionHypothesis before within

/-- By induction on the bound, the expressions inside an expression account for their tokens. -/
theorem gives_expression (before : List Token) :
    Gives (expression : Parser σ ρ Expression) before (Recovered 0 before) := by
  apply (quiet_remaining before).bind
  rintro count after ⟨rfl, rfl⟩
  exact gives_expressionWithin _ after le_rfl

end Parser

end FrontEnd
