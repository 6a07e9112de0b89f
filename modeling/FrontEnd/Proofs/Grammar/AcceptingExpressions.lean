/-
This file shows that the rules of expressions take all that can open an expression. The rules are
followed from primary expressions up to assignment, which is taken inside the others again.
-/

import FrontEnd.Proofs.Binary64.RoundTrip
import FrontEnd.Proofs.Grammar.Accepting
import FrontEnd.Proofs.Parser.ReadingExpressions

namespace FrontEnd

open Grammar (Derives Nonterminal)

/-- A rule of some rank leaves a closed operand behind, and no operator that it would take. -/
structure Leaves (inBlock : Bool) (last : List Token) (rank : Nat) (after : List Token) : Prop where
  ahead : Ahead inBlock last (.after true) after
  looser : ∀ operation, operationAhead? (after.map Token.kind) = some operation →
    operation.rank < rank

namespace Leaves

variable {inBlock : Bool} {last after : List Token} {rank : Nat}

theorem mono (leaves : Leaves inBlock last rank after) {rank' : Nat} (le : rank ≤ rank') :
    Leaves inBlock last rank' after :=
  ⟨leaves.ahead, fun operation found => (leaves.looser operation found).trans_le le⟩

/-- No operator is tighter than the ranks of operators. -/
theorem ofTight (ahead : Ahead inBlock last (.after true) after) (tight : 8 ≤ rank) :
    Leaves inBlock last rank after :=
  ⟨ahead, fun _ found => (rank_of_operationAhead? found).1.trans_le tight⟩

/-- The loosest rule takes all operators, so its statement ends. -/
theorem next (leaves : Leaves inBlock last 0 after) : Ahead inBlock last .next after := by
  refine leaves.ahead.next_of_after (Option.eq_none_iff_forall_ne_some.2 fun operation found => ?_)
  exact absurd (leaves.looser operation found) (Nat.not_lt_zero _)

/-- A rule that finds no operator of its own leaves what the tighter one left. -/
theorem loosen (leaves : Leaves inBlock last (rank + 1) after)
    (misses : ∀ operation, operationAhead? (after.map Token.kind) = some operation →
      operation.rank ≠ rank) : Leaves inBlock last rank after := by
  refine ⟨leaves.ahead, fun operation found => ?_⟩
  have below := leaves.looser operation found
  have other := misses operation found
  omega

end Leaves

namespace Parser

variable {σ ρ : Type}

/-- A rule takes all that can open an expression of its rank, as long as it is short enough. -/
def TakesOpening (parser : Parser σ ρ Expression) (rank bound : Nat) : Prop :=
  ∀ ⦃inBlock : Bool⦄ ⦃last tokens : List Token⦄, EndsStatement last → Fit tokens →
    tokens.length ≤ bound → Ahead inBlock last (.opening rank) tokens →
      Takes parser tokens (Leaves inBlock last rank)

section Inside

variable {inner : Parser σ ρ Expression} {bound : Nat} {inside rest : List Token}

/-- An expression inside brackets or between keywords is taken up to what follows it. -/
theorem TakesOpening.takesInside (nested : TakesOpening inner 0 bound)
    (derives : Derives (.expression 0) inside) (fit : Fit (inside ++ rest))
    (within : (inside ++ rest).length ≤ bound) (ends : EndsStatement rest) :
    Takes inner (inside ++ rest) (· = rest) := by
  have opens : Ahead false rest (.opening 0) (inside ++ rest) := derives.opens fit.apart .finish
  exact (nested ends fit within opens).mono fun after leaves => leaves.next.eq_last

/-- The arguments of a call are taken up to the closing parenthesis. -/
theorem TakesOpening.acceptsArguments [Receiver ρ] (nested : TakesOpening inner 0 bound)
    (derives : Derives (.list (.expression 0)) inside) {close : Token}
    (closeKind : close.kind = .bracket .closeParen) (fit : Fit (inside ++ close :: rest))
    (within : (inside ++ close :: rest).length ≤ bound) :
    Accepts (listItems inner) (inside ++ close :: rest) (· = close :: rest) := by
  refine accepts_listItems (fun argument after derives fit within ends => ?_) derives closeKind fit
    within
  have opens : Ahead false after (.opening 0) (argument ++ after) :=
    derives.opens fit.apart .finish
  exact ⟨TokenKind.ne_of_beginsExpression opens.begins rfl,
    TokenKind.ne_of_beginsExpression opens.begins rfl, nested.takesInside derives fit within ends⟩

end Inside

variable [Observer σ] [Receiver ρ] {inner operand : Parser σ ρ Expression} {inBlock : Bool}
  {last tokens : List Token} {rank bound : Nat}

/-- A name or a literal of a text is read as an expression. -/
theorem accepts_leaf {token : Token} {rest : List Token} {leaves : List Token → Prop}
    (kind : token.kind = .identifier ∨ ∃ sort, token.kind = .literal sort)
    (well : token.WellSpelled) (left : leaves rest) :
    Accepts (primary inner) (token :: rest) leaves := by
  have suffix := List.suffix_cons token rest
  rcases kind with kind | ⟨sort, kind⟩
  · exact (reads_primary_identifier kind).accepts suffix left
  · cases sort with
    | boolean => exact (reads_primary_boolean kind).accepts suffix left
    | string => exact (reads_primary_string kind).accepts suffix left
    | number =>
        have numeral := well.spelled
        rw [kind] at numeral
        obtain ⟨value, read⟩ := Binary64.exists_read? numeral
        exact (reads_primary_number kind read).accepts suffix left

/-- An operand without calls is taken, with the parentheses around a group. -/
theorem takes_primary (nested : TakesOpening inner 0 bound) (fit : Fit tokens)
    (within : tokens.length ≤ bound + 1) (tight : 8 < rank)
    (opens : Ahead inBlock last (.opening rank) tokens) :
    Takes (primary inner) tokens (Ahead inBlock last (.after false)) := by
  cases opens with
  | conditional loose | prefixed loose => omega
  | @leaf _ token rest kind goesOn =>
      have well := fit.written token List.mem_cons_self
      exact accepts_leaf kind well ⟨Nat.lt_succ_self _, goesOn⟩
  | @group _ opening close content rest openingKind contentDerives closeKind goesOn =>
      have ends : EndsStatement (close :: rest) := .ofKind closeKind rfl (by simp)
      have contentFit := fit.suffix (List.suffix_cons opening _)
      have contentTaken := nested.takesInside contentDerives contentFit
        (Nat.le_of_succ_le_succ within) ends
      apply (reads_eat (by simp) openingKind).bindTakes
      apply contentTaken.accepts.bind
      rintro value _ - rfl
      apply (reads_expectBracket closeKind).bindAccepts (List.suffix_cons close rest)
      exact accepts_make goesOn

/-- Calls and properties are taken as long as they follow one another. -/
theorem accepts_callWithin (nested : TakesOpening inner 0 bound) (ends : EndsStatement last)
    (fit : Fit tokens) (within : tokens.length ≤ bound + 1)
    (ahead : Ahead inBlock last (.after false) tokens) (count : Nat)
    (counted : tokens.length ≤ count) (receiver : Expression) :
    Accepts (callWithin inner count receiver) tokens fun after =>
      Ahead inBlock last (.after false) after ∧ kindAhead after ≠ .bracket .openParen ∧
        kindAhead after ≠ .symbol .dot := by
  induction count generalizing tokens receiver with
  | zero =>
      obtain rfl := List.eq_nil_of_length_eq_zero (Nat.le_zero.1 counted)
      exact accepts_pure ⟨ahead, by simp, by simp⟩
  | succ count inductionHypothesis =>
      by_cases calls : kindAhead tokens = .bracket .openParen
      · obtain ⟨opening, others, rfl⟩ := exists_cons_of_kindAhead calls (by simp)
        obtain ⟨arguments, close, after, rfl, argumentsDerive, closeKind, goesOn⟩ :=
          ahead.call_inv ends calls
        have argumentsFit := fit.suffix (List.suffix_cons opening _)
        have argumentsTaken := nested.acceptsArguments argumentsDerive closeKind argumentsFit
          (Nat.le_of_succ_le_succ within)
        have suffix : after <:+ opening :: (arguments ++ close :: after) :=
          ⟨opening :: (arguments ++ [close]), by simp⟩
        simp only [List.length_cons, List.length_append] at counted within
        apply (reads_eat (by simp) calls).bindAccepts (List.suffix_cons opening _)
        apply argumentsTaken.bind
        rintro values _ - rfl
        apply (reads_expectBracket closeKind).bindAccepts (List.suffix_cons close after)
        apply (reads_make _ _ after).bindAccepts (List.suffix_refl after)
        exact inductionHypothesis (fit.suffix suffix) (by omega) goesOn (by omega) _
      · apply (reads_eat_none calls).bindAccepts (List.suffix_refl tokens)
        by_cases selects : kindAhead tokens = .symbol .dot
        · obtain ⟨dot, others, rfl⟩ := exists_cons_of_kindAhead selects (by simp)
          obtain ⟨name, after, rfl, nameKind, goesOn⟩ := ahead.property_inv ends selects
          have suffix : after <:+ dot :: name :: after := ⟨[dot, name], rfl⟩
          simp only [List.length_cons] at counted within
          apply (reads_eat (by simp) selects).bindAccepts (List.suffix_cons dot _)
          apply (reads_identifier nameKind).bindAccepts (List.suffix_cons name after)
          apply (reads_make _ _ after).bindAccepts (List.suffix_refl after)
          exact inductionHypothesis (fit.suffix suffix) (by omega) goesOn (by omega) _
        · apply (reads_eat_none selects).bindAccepts (List.suffix_refl tokens)
          exact accepts_pure ⟨ahead, calls, selects⟩

/-- An operand is taken with all its calls and properties. -/
theorem takes_call (nested : TakesOpening inner 0 bound) (ends : EndsStatement last)
    (fit : Fit tokens) (within : tokens.length ≤ bound + 1) (tight : 8 < rank)
    (opens : Ahead inBlock last (.opening rank) tokens) :
    Takes (call inner) tokens fun after =>
      Ahead inBlock last (.after false) after ∧ kindAhead after ≠ .bracket .openParen ∧
        kindAhead after ≠ .symbol .dot := by
  apply (takes_primary nested fit within tight opens).bind
  intro receiver middle suffix _ goesOn
  have within := suffix.length_le.trans within
  exact accepts_remaining
    (accepts_callWithin nested ends (fit.suffix suffix) within goesOn _ le_rfl receiver)

/-- A sign after an operand is taken unless it can belong to the next statement. -/
theorem takesOpening_postfixed (nested : TakesOpening inner 0 bound) :
    TakesOpening (postfixed (call inner)) 9 (bound + 1) := by
  intro inBlock last tokens ends fit within opens
  apply (takes_call nested ends fit within (by decide) opens).bind
  rintro value middle suffix - ⟨goesOn, noCall, noProperty⟩
  cases closes : closesAhead (middle.map Token.kind) with
  | false =>
      have stops := extendsOperand_eq_false.2 ⟨noCall, noProperty, closes⟩
      refine accepts_cursor (pure value) (fun cursor ended stands => ?_)
        (accepts_pure (.ofTight (goesOn.closed ends stops) (by decide)))
      rw [closesOperand_eq ended, stands, closes]
      rfl
  | true =>
      obtain ⟨sign, member, kind, free⟩ := closesAhead_iff.1 closes
      obtain ⟨token, rest, rfl⟩ := exists_cons_of_kindAhead kind (by simp)
      obtain ⟨operation', meaning⟩ := mem_postfixSigns.1 member
      have meaning := Token.operation?_eq_some.2 ⟨sign, kind, meaning⟩
      let takesSign : Parser σ ρ Expression := do
        let token ← advance
        let meaning ← operation .after token
        makeExpression (.postfixed value meaning token)
      refine accepts_cursor takesSign (fun cursor ended stands => ?_) ?_
      · rw [closesOperand_eq ended, stands, closes]
        rfl
      · have kind : token.kind = .operator sign := kind
        apply (reads_advance (by simp [kind])).bindAccepts (List.suffix_cons token rest)
        apply (reads_operation meaning rest).bindAccepts (List.suffix_refl rest)
        exact accepts_make (.ofTight (goesOn.postfixed_inv ends meaning) (by decide))

/-- Signs before an operand are taken one by one. -/
theorem takes_prefixedWithin (operandTakes : TakesOpening operand 9 bound)
    (ends : EndsStatement last) (fit : Fit tokens) (within : tokens.length ≤ bound)
    (opens : Ahead inBlock last (.opening 8) tokens) (count : Nat)
    (counted : tokens.length ≤ count) :
    Takes (prefixedWithin operand count) tokens (Leaves inBlock last 8) := by
  induction count generalizing tokens with
  | zero =>
      obtain rfl := List.eq_nil_of_length_eq_zero (Nat.le_zero.1 counted)
      cases opens.begins
  | succ count inductionHypothesis =>
      by_cases signed : ∃ sign ∈ prefixSigns, kindAhead tokens = .operator sign
      · obtain ⟨sign, member, kind⟩ := signed
        obtain ⟨token, rest, rfl⟩ := exists_cons_of_kindAhead kind (by simp)
        obtain ⟨operation, meaning⟩ := mem_prefixSigns.1 member
        have meaning := Token.operation?_eq_some.2 ⟨sign, kind, meaning⟩
        have restFit := fit.suffix (List.suffix_cons token rest)
        rw [List.length_cons] at within counted
        have operandTaken := inductionHypothesis restFit (by omega) (opens.prefixed_inv meaning)
          (by omega)
        apply (reads_eatOneOf kind member).bindTakes
        apply (reads_operation meaning rest).bindAccepts (List.suffix_refl rest)
        apply operandTaken.accepts.bind
        exact fun value after _ leaves => accepts_make leaves
      · have misses : ∀ sign, kindAhead tokens = .operator sign → sign ∉ prefixSigns :=
          fun sign kind member => signed ⟨sign, member, kind⟩
        have tight : Ahead inBlock last (.opening 9) tokens := by
          refine opens.tighten (fun loose => absurd loose (by decide)) fun _ sign => ?_
          obtain ⟨sign, member, kind⟩ := TokenKind.isPrefixSign_iff.1 sign
          exact absurd member (misses sign kind)
        have operandTaken := (operandTakes ends fit within tight).mono fun after leaves =>
          (Leaves.ofTight leaves.ahead le_rfl : Leaves inBlock last 8 after)
        exact (reads_eatOneOf_none misses).bindAccepts (List.suffix_refl tokens) operandTaken

theorem takesOpening_prefixed (operandTakes : TakesOpening operand 9 bound) :
    TakesOpening (prefixed operand) 8 bound :=
  fun _ _ _ ends fit within opens =>
    accepts_remaining (takes_prefixedWithin operandTakes ends fit within opens _ le_rfl)

/-- Operators of one level are taken with their operands as long as they follow one another. -/
theorem accepts_binaryWithin (operandTakes : TakesOpening operand (rank + 1) bound)
    (low : rank < 8) (ends : EndsStatement last) (fit : Fit tokens)
    (within : tokens.length ≤ bound) (leaves : Leaves inBlock last (rank + 1) tokens)
    (count : Nat) (counted : tokens.length ≤ count) (left : Expression) :
    Accepts (binaryWithin (signs rank) operand count left) tokens (Leaves inBlock last rank) := by
  induction count generalizing tokens left with
  | zero =>
      obtain rfl := List.eq_nil_of_length_eq_zero (Nat.le_zero.1 counted)
      exact accepts_pure (leaves.loosen fun _ found => absurd found (by simp [operationAhead?]))
  | succ count inductionHypothesis =>
      by_cases signed : ∃ sign ∈ signs rank, kindAhead tokens = .operator sign
      · obtain ⟨sign, member, kind⟩ := signed
        obtain ⟨token, rest, rfl⟩ := exists_cons_of_kindAhead kind (by simp)
        obtain ⟨operation, meaning, rfl⟩ := (mem_signs low).1 member
        have meaning := Token.operation?_eq_some.2 ⟨sign, kind, meaning⟩
        have restFit := fit.suffix (List.suffix_cons token rest)
        rw [List.length_cons] at within counted
        have opens := leaves.ahead.binary_inv ends meaning
        have operandTaken := operandTakes ends restFit (by omega) opens
        apply (reads_eatOneOf kind member).bindAccepts (List.suffix_cons token rest)
        apply (reads_operation meaning rest).bindAccepts (List.suffix_refl rest)
        refine (operandTaken.bind fun right middle suffix shorter leaves => ?_).accepts
        apply (reads_make _ _ middle).bindAccepts (List.suffix_refl middle)
        exact inductionHypothesis (restFit.suffix suffix) (by omega) leaves (by omega) _
      · have misses : ∀ sign, kindAhead tokens = .operator sign → sign ∉ signs rank :=
          fun sign kind member => signed ⟨sign, member, kind⟩
        apply (reads_eatOneOf_none misses).bindAccepts (List.suffix_refl tokens)
        refine accepts_pure (leaves.loosen fun operation found same => ?_)
        obtain ⟨sign, kind, meaning⟩ := operationAhead?_eq_some.1 found
        exact misses sign kind ((mem_signs low).2 ⟨operation, meaning, same⟩)

theorem takesOpening_binary (operandTakes : TakesOpening operand (rank + 1) bound)
    (low : rank < 8) (loops : rank ≠ 1) :
    TakesOpening (binary (signs rank) operand) rank bound := by
  intro inBlock last tokens ends fit within opens
  have tight : Ahead inBlock last (.opening (rank + 1)) tokens :=
    opens.tighten (fun loose _ => by omega) (fun _ _ => by omega)
  apply (operandTakes ends fit within tight).bind
  intro left middle suffix shorter leaves
  have within := suffix.length_le.trans within
  exact accepts_remaining
    (accepts_binaryWithin operandTakes low ends (fit.suffix suffix) within leaves _ le_rfl left)

/-- A conditional is taken as far as its last part goes. -/
theorem takesOpening_conditional (nested : TakesOpening inner 0 bound)
    (looserTakes : TakesOpening (disjunction inner) 2 (bound + 1)) :
    TakesOpening (conditional inner) 1 (bound + 1) := by
  intro inBlock last tokens ends fit within opens
  by_cases word : kindAhead tokens = .keyword .ifWord
  · cases opens with
    | @conditional _ keyword thenWord elseWord condition consequent rest _ kind conditionDerives
        thenKind consequentDerives elseKind opens =>
        have conditionFit := fit.suffix (List.suffix_cons keyword _)
        have consequentFit := conditionFit.suffix
          (⟨condition ++ [thenWord], by simp⟩ : consequent ++ elseWord :: rest <:+ _)
        have restFit := consequentFit.suffix (⟨consequent ++ [elseWord], by simp⟩ : rest <:+ _)
        simp only [List.length_cons, List.length_append] at within
        have conditionTaken := nested.takesInside conditionDerives conditionFit (by simp; omega)
          (.ofKind thenKind rfl (by simp))
        have consequentTaken := nested.takesInside consequentDerives consequentFit
          (by simp; omega) (.ofKind elseKind rfl (by simp))
        have restTaken := nested ends restFit (by omega) opens
        apply (reads_eat (by simp) kind).bindTakes
        apply conditionTaken.accepts.bind
        rintro _ _ - rfl
        apply ((reads_eat (by simp) thenKind).bind (reads_pure () _)).bindAccepts
          (List.suffix_cons thenWord _)
        apply consequentTaken.accepts.bind
        rintro _ _ - rfl
        apply ((reads_eat (by simp) elseKind).bind (reads_pure () _)).bindAccepts
          (List.suffix_cons elseWord rest)
        apply restTaken.accepts.bind
        exact fun _ after _ leaves => accepts_make (leaves.mono (by decide))
    | prefixed _ meaning =>
        obtain ⟨sign, kind, -⟩ := Token.operation?_eq_some.1 meaning
        simp [kind] at word
    | leaf kind => rcases kind with kind | ⟨sort, kind⟩ <;> simp [kind] at word
    | group kind => simp [kind] at word
  · have tight : Ahead inBlock last (.opening 2) tokens :=
      opens.tighten (fun _ ahead => absurd ahead word) (fun _ _ => by decide)
    apply (reads_eat_none word).bindAccepts (List.suffix_refl tokens)
    refine (looserTakes ends fit within tight).mono fun after leaves => ?_
    exact leaves.loosen fun operation found => (rank_of_operationAhead? found).2

/-- Each rule takes what opens an expression of its rank. -/
theorem takesOpening_atRank (nested : TakesOpening inner 0 bound) :
    ∀ rank ≤ 8, TakesOpening (atRank inner rank) rank (bound + 1) := by
  intro rank loose
  induction loose using Nat.decreasingInduction with
  | self => exact takesOpening_prefixed (takesOpening_postfixed nested)
  | of_succ rank below inductionHypothesis =>
      by_cases loops : rank = 1
      · subst loops
        exact takesOpening_conditional nested inductionHypothesis
      · rw [atRank_binary inner below loops]
        exact takesOpening_binary inductionHypothesis below loops

/-- An expression is taken when its tokens bound how deep it can be. -/
theorem takesOpening_expressionWithin (bound : Nat) :
    TakesOpening (expressionWithin bound : Parser σ ρ Expression) 0 bound := by
  induction bound with
  | zero =>
      intro inBlock last tokens _ _ within opens
      obtain rfl := List.eq_nil_of_length_eq_zero (Nat.le_zero.1 within)
      cases opens.begins
  | succ bound inductionHypothesis => exact takesOpening_atRank inductionHypothesis 0 (by decide)

/-- An expression is taken with all that can go on with it. -/
theorem takes_expression (ends : EndsStatement last) (fit : Fit tokens)
    (opens : Ahead inBlock last (.opening 0) tokens) :
    Takes (expression : Parser σ ρ Expression) tokens (Ahead inBlock last .next) := by
  have taken : Takes (expressionWithin tokens.length : Parser σ ρ Expression) tokens _ :=
    takesOpening_expressionWithin tokens.length ends fit le_rfl opens
  exact accepts_remaining (taken.mono fun after leaves => leaves.next)

end Parser

end FrontEnd
