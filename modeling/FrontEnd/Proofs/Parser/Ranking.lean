/-
This file shows that every parsed tree has the shape that the ranks of the grammar give, also where
tokens were missing or of no use.
-/

import FrontEnd.Proofs.Parser.Accounting
import FrontEnd.Proofs.Parser.Ensuring
import FrontEnd.Proofs.Parser.ReadingExpressions

namespace FrontEnd

namespace Expression

/-- Whether a conditional stands here without parentheses around it. -/
def isConditional : Expression → Bool
  | .conditional .. => true
  | _ => false

/-- Names, literals, calls, properties and groups. -/
def isCallLevel : Expression → Bool
  | .identifier _ | .boolean .. | .number .. | .string .. | .call .. | .property .. | .group .. =>
      true
  | .binary .. | .prefixed .. | .postfixed .. | .conditional .. => false

/-- What can stand after a sign before it. -/
def isUnary : Expression → Bool
  | .prefixed .. | .postfixed .. => true
  | value => value.isCallLevel

/-- Whether the parts of an expression bind as tight as their places ask for, and its sign is one of
its rule, where it has the meaning that the expression holds. A conditional stands on the right of
an assignment, or where any expression can stand. -/
def IsRanked : Expression → Prop
  | .binary left operation token right =>
      (∃ sign ∈ Parser.signs operation.rank, token.kind = .operator sign) ∧
        token.operation? .between = some operation ∧ operation ≠ .invalid ∧
        operation.rank ≤ left.rank ∧ operation.rank < right.rank ∧
        left.isConditional = false ∧ (right.isConditional → operation = .assignment) ∧
        (operation = .assignment → left.endsInConditional = false)
  | .prefixed operation token operand =>
      token.operation? .before = some operation ∧ operation ≠ .invalid ∧ operand.isUnary
  | .postfixed operand operation token =>
      token.operation? .after = some operation ∧ operation ≠ .invalid ∧ operand.isCallLevel
  | .call receiver _ _ => receiver.isCallLevel
  | .property receiver _ => receiver.isCallLevel
  | _ => True

/-- What can be called binds tighter than every sign. -/
theorem rank_of_isCallLevel {value : Expression} (level : value.isCallLevel) : value.rank = 10 := by
  cases value <;> simp_all [isCallLevel, rank]

/-- What can be called ends in a bracket, a name or a literal. -/
theorem endsInConditional_of_isCallLevel {value : Expression} (level : value.isCallLevel) :
    value.endsInConditional = false := by
  cases value <;> simp_all [isCallLevel, endsInConditional]

end Expression

/-- Only the parts of expressions have ranks. -/
def Node.IsRanked : Node → Prop
  | .expression value => value.IsRanked
  | _ => True

/-- No token with a meaning has the one that stands for none. -/
theorem Token.operation?_ne_invalid {token : Token} {fixity : Fixity} {operation : Operation}
    (meaning : token.operation? fixity = some operation) : operation ≠ .invalid := by
  obtain ⟨sign, -, meaning⟩ := operation?_eq_some.1 meaning
  rintro rfl
  cases fixity <;> cases sign <;> cases meaning

/-- Only what can stand after a sign binds tighter than every sign between operands. -/
theorem Expression.IsRanked.isUnary {value : Expression} (ranked : value.IsRanked)
    (tight : 8 ≤ value.rank) : value.isUnary := by
  cases value with
  | binary left operation token right =>
      obtain ⟨sign, -, meaning⟩ := Token.operation?_eq_some.1 ranked.2.1
      have low := (Operator.rank_of_between meaning).1
      exact absurd low (Nat.not_lt.2 tight)
  | conditional keyword condition consequent alternative =>
      exact absurd tight (by simp [rank])
  | _ => rfl

/-- The operands of a sign between them, where nothing that ends in a conditional is assigned to,
make a ranked expression. -/
theorem Expression.isRanked_binary {left right : Expression} {operation : Operation}
    {token : Token} {sign : Operator} (member : sign ∈ Parser.signs operation.rank)
    (kind : token.kind = .operator sign) (meaning : sign.operation? .between = some operation)
    (leftRank : operation.rank ≤ left.rank) (rightRank : operation.rank < right.rank)
    (leftEnd : operation = .assignment → left.endsInConditional = false) :
    (Expression.binary left operation token right).IsRanked := by
  have means := Token.operation?_eq_some.2 ⟨sign, kind, meaning⟩
  have loops := (Operator.rank_of_between meaning).2
  have assigns : operation.rank = 0 → operation = .assignment := by
    cases operation <;> simp [Operation.rank]
  have conditionalRank : ∀ value : Expression, value.isConditional → value.rank = 1 := by
    intro value conditional
    cases value <;> simp_all [isConditional, rank]
  refine ⟨⟨sign, member, kind⟩, means, Token.operation?_ne_invalid means, leftRank, rightRank,
    ?_, fun conditional => ?_, leftEnd⟩
  · cases left with
    | conditional keyword condition consequent alternative =>
        have low : operation.rank ≤ 1 := leftRank
        have free := leftEnd (assigns (by omega))
        cases free
    | _ => rfl
  · have low := conditionalRank right conditional
    exact assigns (by omega)

/-- Whether every node has its parts in places that their ranks allow. -/
def WellRanked (nodes : List Leveled) : Prop := ∀ entry ∈ nodes, entry.2.IsRanked

section WellRanked

variable {entry : Leveled} {nodes : List Leveled}

@[simp] theorem wellRanked_cons :
    WellRanked (entry :: nodes) ↔ entry.2.IsRanked ∧ WellRanked nodes :=
  List.forall_mem_cons

@[simp] theorem wellRanked_append {first second : List Leveled} :
    WellRanked (first ++ second) ↔ WellRanked first ∧ WellRanked second :=
  List.forall_mem_append

@[simp] theorem wellRanked_flatMap {α : Type} {values : List α} {nodes : α → List Leveled} :
    WellRanked (values.flatMap nodes) ↔ ∀ value ∈ values, WellRanked (nodes value) :=
  List.forall_mem_flatMap

/-- A node without ranked parts is well-ranked. -/
theorem wellRanked_leaf (ranked : entry.2.IsRanked) : WellRanked [entry] :=
  wellRanked_cons.2 ⟨ranked, by simp [WellRanked]⟩

end WellRanked

/-- The first node of an expression is the expression. -/
theorem WellRanked.self {value : Expression} {depth : Nat}
    (ranked : WellRanked (value.nodes depth)) : value.IsRanked := by
  cases value <;> exact ranked _ List.mem_cons_self

namespace Parser

variable {σ ρ α : Type} [Receiver ρ]

/-- The placeholder for a missing token takes none. -/
theorem ensures_recover {code : Code} (harmless : code ≠ .invalidOperator) (kind : TokenKind)
    (lexeme : String) (before : List Token) :
    Ensures (recover code kind lexeme : Parser σ ρ Token) before fun _ after => after = before := by
  apply (ensures_current before).bind
  rintro found middle - rfl
  apply (ensures_report harmless).bind
  rintro _ between - rfl
  apply (ensures_note rfl).map
  rintro _ after rfl
  rfl

/-- No bracket is reported as an operator without a meaning. -/
theorem ensures_expectBracket (bracket : Bracket) (before : List Token) :
    Ensures (expectBracket bracket : Parser σ ρ Token) before fun _ _ => True := by
  apply (ensures_eat _ before).bind
  intro found middle
  cases found with
  | some token => exact fun _ _ => ensures_pure trivial
  | none =>
      have harmless : bracketCode bracket ≠ .invalidOperator := by cases bracket <;> decide
      exact fun _ _ => (ensures_recover harmless _ _ middle).mono fun _ _ _ => trivial

/-- No comma is reported as an operator without a meaning. -/
theorem ensures_separator (close : Bracket) (before : List Token) :
    Ensures (separator close : Parser σ ρ Unit) before fun _ _ => True := by
  apply (ensures_eat _ before).bind
  intro found middle
  cases found with
  | some token => exact fun _ _ => ensures_pure trivial
  | none =>
      intro _ _
      apply (ensures_beforeClose close middle).bind
      intro more between _ _
      cases more with
      | false => exact ensures_pure trivial
      | true =>
          apply (ensures_current between).bind
          intro token after _ _
          exact (ensures_report (by simp [Diagnostic.atToken])).mono fun _ _ _ => trivial

theorem ensures_passKeyword (keyword : Keyword) {code : Code} (harmless : code ≠ .invalidOperator)
    (before : List Token) :
    Ensures (passKeyword keyword code : Parser σ ρ Unit) before fun _ _ => True := by
  apply (ensures_eat _ before).bind
  intro found middle
  cases found with
  | some token => exact fun _ _ => ensures_pure trivial
  | none =>
      intro _ _
      apply (ensures_current middle).bind
      intro token after _ _
      exact (ensures_report harmless).mono fun _ _ _ => trivial

/-- What is no number is reported as unexpected. -/
theorem ensures_numberValue (token : Token) (before : List Token) :
    Ensures (numberValue token : Parser σ ρ Binary64) before fun _ _ => True := by
  unfold numberValue
  cases Binary64.read? token.lexeme with
  | some value => exact ensures_pure trivial
  | none => exact (ensures_report (by simp [Diagnostic.atToken])).map fun _ _ _ => trivial

section Lists

variable {item : Parser σ ρ α} {holds : α → Prop} {limit : Nat}
variable (ensuresItem : ∀ before : List Token, before.length ≤ limit →
  Ensures item before fun value _ => holds value)

include ensuresItem

/-- By induction on the bound, every item has what the rule of items ensures. -/
theorem ensures_itemsWithin (close : Bracket) (count : Nat) (before : List Token)
    (within : before.length ≤ limit) :
    Ensures (itemsWithin close item count) before fun values _ =>
      ∀ value ∈ values, holds value := by
  induction count generalizing before with
  | zero => exact ensures_pure (by simp)
  | succ count inductionHypothesis =>
      apply (ensures_beforeClose close before).bind
      intro more middle shorter _
      cases more with
      | false => exact ensures_pure (by simp)
      | true =>
          apply (ensuresItem middle (by omega)).bind
          intro first between _ firstHolds
          apply (inductionHypothesis between (by omega)).map
          intro rest after restHold
          exact List.forall_mem_cons.2 ⟨firstHolds, restHold⟩

theorem ensures_items (close : Bracket) (before : List Token) (within : before.length ≤ limit) :
    Ensures (items close item) before fun values _ => ∀ value ∈ values, holds value := by
  apply (ensures_remaining before).bind
  rintro count middle - ⟨-, rfl⟩
  exact ensures_itemsWithin ensuresItem close count middle within

/-- The commas between items change nothing about them. -/
theorem ensures_listItems (before : List Token) (within : before.length ≤ limit) :
    Ensures (listItems item) before fun values _ => ∀ value ∈ values, holds value := by
  refine ensures_items (fun before within => ?_) .closeParen before within
  apply (ensuresItem before within).bind
  intro value middle _ valueHolds
  exact (ensures_separator _ middle).map fun _ _ _ => valueHolds

end Lists

/-- An optional part has what its rule ensures. -/
theorem ensures_optional {item : Parser σ ρ α} {holds : α → Prop}
    (ensuresItem : ∀ before, Ensures item before fun value _ => holds value) (kind : TokenKind)
    (before : List Token) :
    Ensures (optional kind item) before fun found _ => ∀ value ∈ found.toList, holds value := by
  apply (ensures_eat _ before).bind
  intro found middle
  cases found with
  | some token =>
      intro _ _
      apply (ensuresItem middle).map
      intro value after valueHolds
      simpa using valueHolds
  | none => exact fun _ _ => ensures_pure (by simp)

/-- What the rule of a rank ensures. After an expression that ends in a conditional no assignment
can follow, since the conditional would have taken it. -/
structure Ranked (rank : Nat) (value : Expression) (after : List Token) : Prop where
  nodes : ∀ depth, WellRanked (value.nodes depth)
  tight : rank ≤ value.rank
  ends : value.endsInConditional = true → kindAhead after ≠ .operator .equals

/-- What the rule of all expressions ensures: it takes every assignment. -/
structure RankedWhole (value : Expression) (after : List Token) : Prop where
  nodes : ∀ depth, WellRanked (value.nodes depth)
  stops : kindAhead after ≠ .operator .equals

/-- What the rule of calls ensures. -/
structure RankedOperand (value : Expression) : Prop where
  nodes : ∀ depth, WellRanked (value.nodes depth)
  level : value.isCallLevel

/-- An operand binds tight enough for every place. -/
theorem RankedOperand.ranked {value : Expression} (operand : RankedOperand value)
    (after : List Token) : Ranked 10 value after := by
  have free := Expression.endsInConditional_of_isCallLevel operand.level
  refine ⟨operand.nodes, (Expression.rank_of_isCallLevel operand.level).ge, fun ends => ?_⟩
  exact absurd (free.symm.trans ends) Bool.false_ne_true

/-- What binds tight enough for a place binds tight enough for a looser one. -/
theorem Ranked.loosen {rank less : Nat} {value : Expression} {after : List Token}
    (ranked : Ranked rank value after) (below : less ≤ rank) : Ranked less value after :=
  ⟨ranked.nodes, below.trans ranked.tight, ranked.ends⟩

variable [Observer σ]

/-- A name has no parts, so nothing is asked of it. -/
theorem ensures_identifier (before : List Token) :
    Ensures (identifier : Parser σ ρ Identifier) before fun name _ =>
      ∀ depth, WellRanked (name.nodes depth) := by
  have ranked : ∀ (name : Identifier) (depth : Nat), WellRanked (name.nodes depth) :=
    fun _ _ => wellRanked_leaf trivial
  apply (ensures_eat _ before).bind
  intro found middle
  cases found with
  | some token => exact fun _ _ => ensures_make (ranked _)
  | none =>
      intro _ _
      apply (ensures_advance middle).bind
      intro token after _ _
      apply (ensures_report (by simp [Diagnostic.atToken])).make
      exact fun _ _ _ => ranked _

/-- Literals and names can be called. -/
theorem ensures_literal (before : List Token) :
    Ensures (literal : Parser σ ρ Expression) before fun value _ => RankedOperand value := by
  apply (ensures_eat _ before).bind
  intro found middle
  cases found with
  | some token =>
      intro _ _
      apply (ensures_numberValue token middle).make
      exact fun _ _ _ => ⟨fun _ => wellRanked_leaf trivial, rfl⟩
  | none =>
      intro _ _
      apply (ensures_eat _ middle).bind
      intro found middle
      cases found with
      | some token =>
          exact fun _ _ => ensures_make ⟨fun _ => wellRanked_leaf trivial, rfl⟩
      | none =>
          intro _ _
          apply (ensures_eat _ middle).bind
          intro found middle
          cases found with
          | some token =>
              exact fun _ _ => ensures_make ⟨fun _ => wellRanked_leaf trivial, rfl⟩
          | none =>
              intro _ _
              apply (ensures_identifier middle).map
              exact fun name _ nodes => ⟨nodes, rfl⟩

section Rules

variable {inner : Parser σ ρ Expression} {bound : Nat}
variable (ensuresInner : ∀ before : List Token, before.length ≤ bound →
  Ensures inner before RankedWhole)

include ensuresInner

/-- A group can be called whatever stands inside it. -/
theorem ensures_primary (before : List Token) (within : before.length ≤ bound + 1) :
    Ensures (primary inner) before fun value _ => RankedOperand value := by
  apply (ensures_eat _ before).bind
  intro found middle
  cases found with
  | none => exact fun _ _ => ensures_literal middle
  | some opening =>
      rintro - ⟨-, rfl⟩
      rw [List.length_cons] at within
      apply (ensuresInner middle (by omega)).bind
      intro content between _ whole
      apply (ensures_expectBracket _ between).make
      intro close after _
      exact ⟨fun depth => wellRanked_cons.2 ⟨trivial, whole.nodes _⟩, rfl⟩

/-- By induction on the bound, calls and properties can be called in turn. -/
theorem ensures_callWithin (count : Nat) (before : List Token)
    (within : before.length ≤ bound + 1) {receiver : Expression}
    (operand : RankedOperand receiver) :
    Ensures (callWithin inner count receiver) before fun value _ => RankedOperand value := by
  induction count generalizing before receiver with
  | zero => exact ensures_pure operand
  | succ count inductionHypothesis =>
      apply (ensures_eat _ before).bind
      intro found middle
      cases found with
      | some opening =>
          rintro - ⟨-, rfl⟩
          rw [List.length_cons] at within
          have ensuresItem : ∀ before : List Token, before.length ≤ bound →
              Ensures inner before fun value _ => ∀ depth, WellRanked (value.nodes depth) :=
            fun before within => (ensuresInner before within).mono fun _ _ whole => whole.nodes
          apply (ensures_listItems ensuresItem middle (by omega)).bind
          intro arguments between shorter ranked
          apply (ensures_expectBracket _ between).bind
          intro close after shorter' _
          apply Ensures.afterMake
          refine inductionHypothesis after (by omega) ⟨fun depth => ?_, rfl⟩
          simp only [Expression.nodes, Expression.nodesOfAll_eq_flatMap, wellRanked_cons,
            wellRanked_append, wellRanked_flatMap]
          exact ⟨operand.level, operand.nodes _, fun value member => ranked value member _⟩
      | none =>
          rintro - ⟨rfl, -⟩
          apply (ensures_eat _ middle).bind
          intro found between
          cases found with
          | none => exact fun _ _ => ensures_pure operand
          | some dot =>
              rintro - ⟨-, rfl⟩
              rw [List.length_cons] at within
              apply (ensures_identifier between).bind
              intro name after shorter ranked
              apply Ensures.afterMake
              refine inductionHypothesis after (by omega) ⟨fun depth => ?_, rfl⟩
              simp only [Expression.nodes, wellRanked_cons, wellRanked_append]
              exact ⟨operand.level, operand.nodes _, ranked _⟩

theorem ensures_call (before : List Token) (within : before.length ≤ bound + 1) :
    Ensures (call inner) before fun value _ => RankedOperand value := by
  apply (ensures_primary ensuresInner before within).bind
  intro receiver middle shorter operand
  apply (ensures_remaining middle).bind
  rintro count after - ⟨-, rfl⟩
  exact ensures_callWithin ensuresInner count after (by omega) operand

/-- The sign after an operand was looked at before it is taken, so it has a meaning there. -/
theorem ensures_postfixed (before : List Token) (within : before.length ≤ bound + 1) :
    Ensures (postfixed (call inner)) before (Ranked 9) := by
  apply (ensures_call ensuresInner before within).bind
  intro value middle _ operand
  apply ensures_cursor
  intro cursor ended stands
  rw [closesOperand_eq ended, stands]
  cases closes : closesAhead (middle.map Token.kind) with
  | false => exact ensures_pure ((operand.ranked middle).loosen (by decide))
  | true =>
      obtain ⟨sign, member, ahead, -⟩ := closesAhead_iff.1 closes
      apply (ensures_advance middle).bind
      rintro token after - ⟨-, rfl⟩
      have kind : token.kind = .operator sign := ahead
      obtain ⟨meaning, means⟩ := mem_postfixSigns.1 member
      have meansToken := Token.operation?_eq_some.2 ⟨sign, kind, means⟩
      apply (ensures_operation meansToken).bind
      rintro _ last - ⟨rfl, rfl⟩
      refine ensures_make ⟨fun depth => wellRanked_cons.2 ⟨?_, operand.nodes _⟩, le_rfl, nofun⟩
      exact ⟨meansToken, Token.operation?_ne_invalid meansToken, operand.level⟩

/-- By induction on the bound, a sign stands before what can stand after one, and has a meaning
there. -/
theorem ensures_prefixedWithin (count : Nat) (before : List Token)
    (within : before.length ≤ bound + 1) :
    Ensures (prefixedWithin (postfixed (call inner)) count) before (Ranked 8) := by
  have ensuresOperand : ∀ before : List Token, before.length ≤ bound + 1 →
      Ensures (postfixed (call inner)) before (Ranked 8) := fun before within =>
    (ensures_postfixed ensuresInner before within).mono fun _ _ ranked =>
      ranked.loosen (by decide)
  induction count generalizing before with
  | zero => exact ensuresOperand before within
  | succ count inductionHypothesis =>
      apply (ensures_eatOneOf _ before).bind
      intro found middle
      cases found with
      | none =>
          rintro - ⟨rfl, -⟩
          exact ensuresOperand middle within
      | some token =>
          rintro - ⟨⟨sign, member, kind⟩, rfl⟩
          rw [List.length_cons] at within
          obtain ⟨meaning, means⟩ := mem_prefixSigns.1 member
          have meansToken := Token.operation?_eq_some.2 ⟨sign, kind, means⟩
          apply (ensures_operation meansToken).bind
          rintro _ after - ⟨rfl, rfl⟩
          apply (inductionHypothesis after (by omega)).make
          intro operand last ranked
          refine ⟨fun depth => wellRanked_cons.2 ⟨?_, ranked.nodes _⟩, le_rfl, ranked.ends⟩
          exact ⟨meansToken, Token.operation?_ne_invalid meansToken,
            (ranked.nodes 0).self.isUnary ranked.tight⟩

end Rules

section Binary

variable {operand : Parser σ ρ Expression} {limit rank : Nat}
variable (ensuresOperand : ∀ before : List Token, before.length ≤ limit →
  Ensures operand before (Ranked (rank + 1)))
variable (low : rank < 8)

include ensuresOperand low

/-- The loop of signs takes all that are ahead. Where it takes an assignment, what it has so far
does not end in a conditional, since that would have taken it. -/
theorem ensures_binaryWithin (count : Nat) (before : List Token) (counted : before.length ≤ count)
    (within : before.length ≤ limit) {left : Expression} (ranked : Ranked rank left before) :
    Ensures (binaryWithin (signs rank) operand count left) before fun value after =>
      Ranked rank value after ∧ ∀ sign ∈ signs rank, kindAhead after ≠ .operator sign := by
  induction count generalizing before left with
  | zero =>
      obtain rfl := List.eq_nil_of_length_eq_zero (Nat.le_zero.1 counted)
      exact ensures_pure ⟨ranked, fun sign _ => by simp⟩
  | succ count inductionHypothesis =>
      apply (ensures_eatOneOf _ before).bind
      intro found middle
      cases found with
      | none =>
          rintro - ⟨rfl, misses⟩
          exact ensures_pure ⟨ranked, fun sign member ahead => misses sign ahead member⟩
      | some token =>
          rintro - ⟨⟨sign, member, kind⟩, rfl⟩
          rw [List.length_cons] at counted within
          obtain ⟨meaning, means, rankOfSign⟩ := (mem_signs low).1 member
          have meansToken := Token.operation?_eq_some.2 ⟨sign, kind, means⟩
          apply (ensures_operation meansToken).bind
          rintro meaning after - ⟨rfl, rfl⟩
          apply (ensuresOperand after (by omega)).bind
          intro right last shorter rankedRight
          have tight := ranked.tight
          have tightRight := rankedRight.tight
          have free : meaning = .assignment → left.endsInConditional = false := by
            rintro rfl
            by_contra blocked
            have assigns : sign = .equals := by cases sign <;> simp_all [Operator.operation?]
            exact ranked.ends (by simpa using blocked) (kind.trans (congrArg _ assigns))
          have joined : (Expression.binary left meaning token right).IsRanked :=
            Expression.isRanked_binary (rankOfSign ▸ member) kind means (by omega) (by omega) free
          apply Ensures.afterMake
          refine inductionHypothesis last (by omega) (by omega)
            ⟨fun depth => ?_, rankOfSign.ge, rankedRight.ends⟩
          simp only [Expression.nodes, wellRanked_cons, wellRanked_append]
          exact ⟨joined, ranked.nodes _, rankedRight.nodes _⟩

/-- A chain ends where none of its operators follows. -/
theorem ensures_binary (before : List Token) (within : before.length ≤ limit) :
    Ensures (binary (signs rank) operand) before fun value after =>
      Ranked rank value after ∧ ∀ sign ∈ signs rank, kindAhead after ≠ .operator sign := by
  apply (ensuresOperand before within).bind
  intro left middle shorter ranked
  apply (ensures_remaining middle).bind
  rintro count after - ⟨rfl, rfl⟩
  exact ensures_binaryWithin ensuresOperand low _ after le_rfl (by omega)
    (ranked.loosen (Nat.le_succ rank))

end Binary

section Whole

variable {inner : Parser σ ρ Expression} {bound : Nat}
variable (ensuresInner : ∀ before : List Token, before.length ≤ bound →
  Ensures inner before RankedWhole)

include ensuresInner

/-- The rules between a conditional and a prefix give expressions of their ranks. -/
theorem ensures_disjunction (before : List Token) (within : before.length ≤ bound + 1) :
    Ensures (disjunction inner) before (Ranked 2) := by
  have ensuresFrom : ∀ rank ≤ 8, 2 ≤ rank → ∀ before : List Token, before.length ≤ bound + 1 →
      Ensures (atRank inner rank) before (Ranked rank) := by
    intro rank le tight
    induction le using Nat.decreasingInduction with
    | self =>
        intro before within
        apply (ensures_remaining before).bind
        rintro count after - ⟨-, rfl⟩
        exact ensures_prefixedWithin ensuresInner count after within
    | of_succ rank below inductionHypothesis =>
        intro before within
        rw [atRank_binary inner below (by omega)]
        exact (ensures_binary (inductionHypothesis (by omega)) below before within).mono
          fun _ _ ranked => ranked.1
  exact ensuresFrom 2 (by decide) le_rfl before within

/-- A conditional takes the assignment behind it, so none can follow. -/
theorem ensures_conditional (before : List Token) (within : before.length ≤ bound + 1) :
    Ensures (conditional inner) before (Ranked 1) := by
  apply (ensures_eat _ before).bind
  intro found middle
  cases found with
  | none =>
      rintro - ⟨rfl, -⟩
      exact (ensures_disjunction ensuresInner middle within).mono fun _ _ ranked =>
        ranked.loosen (by decide)
  | some keyword =>
      rintro - ⟨-, rfl⟩
      rw [List.length_cons] at within
      apply (ensuresInner middle (by omega)).bind
      intro condition second shorter wholeCondition
      apply (ensures_passKeyword _ (by decide) second).bind
      intro _ third shorter' _
      apply (ensuresInner third (by omega)).bind
      intro consequent fourth shorter'' wholeConsequent
      apply (ensures_passKeyword _ (by decide) fourth).bind
      intro _ fifth shorter''' _
      apply (ensuresInner fifth (by omega)).make
      intro alternative after wholeAlternative
      refine ⟨fun depth => ?_, le_rfl, fun _ => wholeAlternative.stops⟩
      simp only [Expression.nodes, wellRanked_cons, wellRanked_append]
      exact ⟨trivial, ⟨wholeCondition.nodes _, wholeConsequent.nodes _⟩,
        wholeAlternative.nodes _⟩

/-- What is assigned to does not end in a conditional, which would have taken the sign. -/
theorem ensures_assignment (before : List Token) (within : before.length ≤ bound + 1) :
    Ensures (assignment inner) before RankedWhole :=
  (@ensures_binary σ ρ _ _ _ _ 0 (ensures_conditional ensuresInner) (by decide) before within).mono
    fun _ _ ranked => ⟨ranked.1.nodes, ranked.2 .equals (by decide)⟩

end Whole

/-- By induction on the bound, the expressions inside an expression are ranked too. -/
theorem ensures_expressionWithin (bound : Nat) (before : List Token)
    (within : before.length ≤ bound) :
    Ensures (expressionWithin bound : Parser σ ρ Expression) before RankedWhole := by
  induction bound generalizing before with
  | zero =>
      apply (ensures_identifier before).bind
      intro name after shorter nodes
      obtain rfl : after = [] := List.eq_nil_of_length_eq_zero (by omega)
      exact ensures_pure ⟨nodes, by simp⟩
  | succ bound inductionHypothesis => exact ensures_assignment inductionHypothesis before within

theorem ensures_expression (before : List Token) :
    Ensures (expression : Parser σ ρ Expression) before fun value _ =>
      ∀ depth, WellRanked (value.nodes depth) := by
  apply (ensures_remaining before).bind
  rintro count after - ⟨rfl, rfl⟩
  exact (ensures_expressionWithin _ after le_rfl).mono fun _ _ whole => whole.nodes

theorem ensures_typeName (before : List Token) :
    Ensures (typeName : Parser σ ρ (Option Identifier)) before fun type _ =>
      ∀ name ∈ type.toList, ∀ depth, WellRanked (name.nodes depth) :=
  ensures_optional ensures_identifier _ before

theorem ensures_assigned (before : List Token) :
    Ensures (assigned : Parser σ ρ (Option Expression)) before fun found _ =>
      ∀ value ∈ found.toList, ∀ depth, WellRanked (value.nodes depth) :=
  ensures_optional ensures_expression _ before

/-- What is made of a name, its type and its value has their nodes. -/
theorem ensures_binding {node : α → Node}
    {view : Identifier → Option Identifier → Option Expression → α} {holds : α → Prop}
    (made : ∀ name type value, (∀ depth, WellRanked (nodesOfBinding depth name type value)) →
      holds (view name type value)) (before : List Token) :
    Ensures (do
      let name ← identifier
      let type ← typeName
      let value ← assigned
      make node (view name type value) : Parser σ ρ α) before fun value _ => holds value := by
  apply (ensures_identifier before).bind
  intro name second _ ranked
  apply (ensures_typeName second).bind
  intro type third _ rankedType
  apply (ensures_assigned third).make
  intro value after rankedValue
  refine made name type value fun depth => ?_
  simp only [nodesOfBinding, wellRanked_append, wellRanked_flatMap]
  exact ⟨⟨ranked depth, fun name member => rankedType name member depth⟩,
    fun value member => rankedValue value member depth⟩

theorem ensures_variable (keyword : Token) (before : List Token) :
    Ensures (binding keyword : Parser σ ρ Variable) before fun definition _ =>
      ∀ depth, WellRanked (definition.nodes depth) := by
  refine ensures_binding (fun name type value ranked depth => ?_) before
  exact wellRanked_cons.2 ⟨trivial, ranked _⟩

/-- A statement is ranked as its expressions are, and one that is put in has none. -/
theorem ensures_statement (before : List Token) :
    Ensures (statement : Parser σ ρ Statement) before fun statement _ =>
      ∀ depth, WellRanked (statement.nodes depth) := by
  apply (ensures_eat _ before).bind
  intro found middle
  cases found with
  | some keyword =>
      intro _ _
      apply (ensures_expression middle).make
      exact fun value _ ranked depth => wellRanked_cons.2 ⟨trivial, ranked _⟩
  | none =>
      intro _ _
      apply (ensures_eat _ middle).bind
      intro found middle
      cases found with
      | some keyword =>
          intro _ _
          apply (ensures_variable keyword middle).map
          exact fun definition _ ranked => ranked
      | none =>
          intro _ _
          apply ((quiet_eatWhere startsNoStatement middle).ensures (silent_eatWhere _)).bind
          intro found last
          cases found with
          | some token =>
              intro _ _
              apply (ensures_report (by simp [Diagnostic.atToken])).make
              exact fun _ _ _ depth => wellRanked_leaf trivial
          | none =>
              intro _ _
              apply (ensures_expression last).map
              exact fun value _ ranked => ranked

theorem ensures_block (before : List Token) :
    Ensures (block : Parser σ ρ Block) before fun block _ =>
      ∀ depth, WellRanked (block.nodes depth) := by
  apply (ensures_expectBracket _ before).bind
  intro opening second _ _
  apply (ensures_items (fun before _ => ensures_statement before) _ second le_rfl).bind
  intro statements third _ ranked
  apply (ensures_expectBracket _ third).make
  intro close after _ depth
  exact wellRanked_cons.2 ⟨trivial,
    wellRanked_flatMap.2 fun statement member => ranked statement member _⟩

theorem ensures_parameter (before : List Token) :
    Ensures (parameter : Parser σ ρ Parameter) before fun parameter _ =>
      ∀ depth, WellRanked (parameter.nodes depth) := by
  refine ensures_binding (fun name type value ranked depth => ?_) before
  exact wellRanked_cons.2 ⟨trivial, ranked _⟩

theorem ensures_parameterList (before : List Token) :
    Ensures (parameterList : Parser σ ρ ParameterList) before fun list _ =>
      ∀ depth, WellRanked (list.nodes depth) := by
  apply (ensures_expectBracket _ before).bind
  intro opening second _ _
  apply (ensures_listItems (fun before _ => ensures_parameter before) second le_rfl).bind
  intro parameters third _ ranked
  apply (ensures_expectBracket _ third).make
  intro close after _ depth
  exact wellRanked_cons.2 ⟨trivial,
    wellRanked_flatMap.2 fun parameter member => ranked parameter member _⟩

theorem ensures_function (keyword : Token) (before : List Token) :
    Ensures (function keyword : Parser σ ρ FunctionDeclaration) before fun declared _ =>
      ∀ depth, WellRanked (declared.nodes depth) := by
  apply (ensures_identifier before).bind
  intro name second _ ranked
  apply (ensures_parameterList second).bind
  intro parameters third _ rankedParameters
  apply (ensures_typeName third).bind
  intro result fourth _ rankedResult
  apply (ensures_optional ensures_block _ fourth).make
  intro body after rankedBody depth
  simp only [FunctionDeclaration.nodes, wellRanked_cons, wellRanked_append, wellRanked_flatMap]
  exact ⟨trivial, ⟨⟨ranked _, rankedParameters _⟩,
    fun name member => rankedResult name member _⟩, fun block member => rankedBody block member _⟩

/-- By induction on the bound, every declaration is ranked. -/
theorem ensures_declarationsWithin (count : Nat) (before : List Token) :
    Ensures (declarationsWithin count : Parser σ ρ (List Declaration)) before fun declarations _ =>
      ∀ declaration ∈ declarations, ∀ depth, WellRanked (declaration.nodes depth) := by
  induction count generalizing before with
  | zero => exact ensures_pure (by simp)
  | succ count inductionHypothesis =>
      apply (ensures_hasNext before).bind
      intro more middle _ _
      cases more with
      | false => exact ensures_pure (by simp)
      | true =>
          apply (ensures_eat _ middle).bind
          intro found second
          cases found with
          | some keyword =>
              intro _ _
              apply (ensures_function keyword second).bind
              intro declared third _ ranked
              apply (inductionHypothesis third).map
              exact fun rest _ others => List.forall_mem_cons.2 ⟨ranked, others⟩
          | none =>
              intro _ _
              apply (ensures_eat _ second).bind
              intro found third
              cases found with
              | some keyword =>
                  intro _ _
                  apply (ensures_variable keyword third).bind
                  intro definition fourth _ ranked
                  apply (inductionHypothesis fourth).map
                  exact fun rest _ others => List.forall_mem_cons.2 ⟨ranked, others⟩
              | none =>
                  intro _ _
                  apply (ensures_current third).bind
                  intro token fourth _ _
                  apply (ensures_report (by simp)).map
                  simp

/-- The file has the nodes of its declarations and two that are no expressions. -/
theorem ensures_root (before : List Token) :
    Ensures (root : Parser σ ρ Root) before fun whole _ =>
      ∀ depth, WellRanked (whole.nodes depth) := by
  have ensuresModule : Ensures (module : Parser σ ρ Module) before fun body _ =>
      ∀ depth, WellRanked (body.nodes depth) := by
    apply (ensures_current before).bind
    intro boundary second _ _
    apply (ensures_remaining second).bind
    intro count third _ _
    apply (ensures_declarationsWithin count third).make
    intro declarations after ranked depth
    exact wellRanked_cons.2 ⟨trivial,
      wellRanked_flatMap.2 fun declaration member => ranked declaration member _⟩
  apply ensuresModule.bind
  intro body second _ ranked
  apply (ensures_note rfl).bind
  intro _ third _ _
  apply ensures_cursor
  intro cursor _ _
  refine ensures_make fun depth => wellRanked_cons.2 ⟨trivial, ?_⟩
  simpa using ranked (depth + 1)

/-- Every entry point gives a ranked tree. -/
theorem ensures_entry (entry : Entry) (before : List Token) :
    Ensures (entry.parser : Parser σ ρ Node) before fun node _ => WellRanked (node.nodes 0) := by
  cases entry with
  | file => exact (ensures_root before).map fun _ _ ranked => ranked 0
  | expression => exact (ensures_expression before).map fun _ _ ranked => ranked 0
  | statement =>
      apply (ensures_statement before).map
      intro statement _ ranked
      cases statement <;> exact ranked 0
  | identifier => exact (ensures_identifier before).map fun _ _ ranked => ranked 0

end Parser

/-- Whatever the tokens and the receiver, every node of a parsed tree has its parts in places that
their ranks allow, and no rule asks for the meaning of an operator that has none in its place. The
receiver is handed the reports that are noted and nothing else, and what it raises is its answer to
one of them. -/
theorem Entry.parse_wellRanked {σ ρ : Type} [Observer σ] [Receiver ρ] (entry : Entry)
    (tokens : List Token) (sink : ρ) (observed : σ) :
    let outcome := entry.parse tokens sink observed
    (∀ node, outcome.result = .ok node → WellRanked (node.nodes 0)) ∧
      (∀ diagnostic ∈ outcome.state.reports, diagnostic.code ≠ .invalidOperator) ∧
      outcome.state.sink = Receiver.handAll sink outcome.state.reports ∧
      ∀ raised, outcome.result = .error (.reported raised) →
        ∃ (between : ρ) (diagnostic : Diagnostic),
          Receiver.accept diagnostic between = .error raised outcome.state.sink ∧
            diagnostic.code ≠ .invalidOperator := by
  intro outcome
  let start := Parser.State.start tokens sink observed
  have ended : start.cursor.marker.kind = .eof :=
    of_decide_eq_true (TokenCursor.sound_ofTokens tokens).marker
  have meets : Parser.Meets start (fun node _ => WellRanked (node.nodes 0)) outcome :=
    Parser.ensures_entry entry _ start ended rfl
  obtain ⟨added, noted, handed, harmless⟩ := meets.clean.handed
  have reports : outcome.state.reports = added := noted
  refine ⟨?_, reports ▸ harmless, reports ▸ handed, ?_⟩
  · intro node same
    generalize outcome = outcome at meets same
    cases meets with
    | ok clean holds => exact Except.ok.inj same ▸ holds
    | error clean harmless => cases same
  · intro diagnostic same
    generalize outcome = outcome at meets same ⊢
    cases meets with
    | ok clean holds => cases same
    | error clean harmless => exact harmless diagnostic (Except.error.inj same)

/-- A closing parenthesis is taken for an operand, and the sum is assigned to. -/
theorem Entry.parse_takenParenthesis :
    let tokens : List Token :=
      [⟨0, .bracket .openParen, "(", false⟩, ⟨1, .identifier, "a", false⟩,
        ⟨2, .operator .plus, "+", false⟩, ⟨3, .bracket .closeParen, ")", false⟩,
        ⟨4, .operator .equals, "=", false⟩, ⟨5, .identifier, "b", false⟩]
    let outcome := Entry.expression.parse tokens (.collect []) ()
    (∃ node, outcome.result = .ok node ∧ WellRanked (node.nodes 0)) ∧
      outcome.state.sink.held.map Diagnostic.code =
        [.expectedIdentifier, .expectedParentheses] := by
  intro tokens outcome
  have succeeds : outcome.result.isOk := by decide +kernel
  refine ⟨?_, by decide +kernel⟩
  obtain ⟨ranked, -⟩ := Entry.parse_wellRanked .expression tokens (Sink.collect []) ()
  cases found : outcome.result with
  | ok node => exact ⟨node, rfl, ranked node found⟩
  | error error =>
      rw [found] at succeeds
      cases succeeds

end FrontEnd
