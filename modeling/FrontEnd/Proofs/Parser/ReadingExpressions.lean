/-
This file reads canonical expressions. A rule of the grammar reads every expression whose rank it
reaches, by going down to the rule of that rank and up again through the rules that find nothing
more to take.
-/

import FrontEnd.Proofs.Parser.Reading

namespace FrontEnd

namespace Parser

variable {σ ρ : Type} [Observer σ] [Receiver ρ]

/-- The rules by rank, from assignment to calls. -/
def atRank (inner : Parser σ ρ Expression) : Nat → Parser σ ρ Expression
  | 0 => assignment inner
  | 1 => conditional inner
  | 9 => postfixed (call inner)
  | 10 => call inner
  | rank + 2 => tower (prefixed (postfixed (call inner))) (levels.drop rank)

/-- A rule with signs takes operands of the next rank. -/
theorem atRank_binary (inner : Parser σ ρ Expression) {rank : Nat} (low : rank < 8)
    (loops : rank ≠ 1) :
    atRank inner rank = binary (signs rank) (atRank inner (rank + 1)) := by
  match rank, low, loops with
  | 0, _, _ | 2, _, _ | 3, _, _ | 4, _, _ | 5, _, _ | 6, _, _ | 7, _, _ => rfl

variable (σ ρ)

/-- The rule of a rank reads an expression that ends before what follows it. -/
def ReadsAt (rank : Nat) (value : Expression) : Prop :=
  ∀ ⦃taken rest : List Token⦄ ⦃bound : Nat⦄, Spells value.pieces taken →
    (taken ++ rest).length ≤ bound + 1 → value.EndsBefore rank (rest.map Token.kind) →
      Reads (atRank (expressionWithin bound : Parser σ ρ Expression) rank) (taken ++ rest)
        value rest

/-- The rule of a rank goes on after an expression as its loop does. -/
def ChainsAt (rank : Nat) (value : Expression) : Prop :=
  ∀ ⦃taken rest after : List Token⦄ ⦃bound : Nat⦄ ⦃whole : Expression⦄,
    Spells value.pieces taken → (taken ++ rest).length ≤ bound + 1 →
    value.EndsBefore (rank + 1) (rest.map Token.kind) →
    (∀ count, rest.length ≤ count →
      Reads (binaryWithin (signs rank)
        (atRank (expressionWithin bound : Parser σ ρ Expression) (rank + 1)) count value)
        rest whole after) →
      Reads (atRank (expressionWithin bound : Parser σ ρ Expression) rank) (taken ++ rest)
        whole after

/-- The rule of calls goes on after a receiver as its loop does. -/
def ChainsCalls (value : Expression) : Prop :=
  ∀ ⦃taken rest after : List Token⦄ ⦃bound : Nat⦄ ⦃whole : Expression⦄,
    Spells value.pieces taken → (taken ++ rest).length ≤ bound + 1 →
    (∀ count, rest.length ≤ count →
      Reads (callWithin (expressionWithin bound : Parser σ ρ Expression) count value)
        rest whole after) →
      Reads (call (expressionWithin bound : Parser σ ρ Expression)) (taken ++ rest) whole after

/-- What the rules do with an expression, as a whole and as the start of a longer one. -/
structure Readable (value : Expression) : Prop where
  whole : ∀ rank ≤ value.rank, ReadsAt σ ρ rank value
  chain : ∀ rank ≤ value.rank, rank < 8 → rank ≠ 1 → ChainsAt σ ρ rank value
  calls : value.rank = 10 → ChainsCalls σ ρ value

variable {σ ρ}

/-- The loop of signs stops before anything that binds looser. -/
theorem reads_binaryWithin_stop {operand : Parser σ ρ Expression} {rank : Nat} (low : rank < 8)
    {value : Expression} {rest : List Token}
    (ends : value.EndsBefore rank (rest.map Token.kind)) (count : Nat) :
    Reads (binaryWithin (signs rank) operand count value) rest value rest := by
  cases count with
  | zero => exact reads_pure value rest
  | succ count =>
      have misses : ∀ sign, kindAhead rest = .operator sign → sign ∉ signs rank := by
        intro sign ahead member
        obtain ⟨operation, meaning, same⟩ := (mem_signs low).1 member
        have below := ends.looser operation (operationAhead?_eq_some.2 ⟨sign, ahead, meaning⟩)
        split at below <;> omega
      exact (reads_eatOneOf_none misses).bind (reads_pure value rest)

/-- The loop of calls stops where neither a call nor a property goes on. -/
theorem reads_callWithin_stop {inner : Parser σ ρ Expression} {rest : List Token}
    (noCall : kindAhead rest ≠ .bracket .openParen) (noProperty : kindAhead rest ≠ .symbol .dot)
    (count : Nat) (value : Expression) :
    Reads (callWithin inner count value) rest value rest := by
  cases count with
  | zero => exact reads_pure value rest
  | succ count =>
      apply (reads_eat_none noCall).bind
      exact (reads_eat_none noProperty).bind (reads_pure value rest)

/-- A chain that goes on no further is read. -/
theorem ChainsAt.reads {rank : Nat} {value : Expression} (chains : ChainsAt σ ρ rank value)
    (low : rank < 8) : ReadsAt σ ρ rank value := by
  intro taken rest bound spelled within ends
  exact chains spelled within (ends.mono (Nat.le_succ rank)) fun count _ =>
    reads_binaryWithin_stop low ends count

/-- An operand of the next rank begins a chain. -/
theorem ReadsAt.chains {rank : Nat} {value : Expression} (reads : ReadsAt σ ρ (rank + 1) value)
    (low : rank < 8) (loops : rank ≠ 1) : ChainsAt σ ρ rank value := by
  intro taken rest after bound whole spelled within ends goesOn
  rw [atRank_binary _ low loops]
  apply (reads spelled within ends).bind
  exact reads_remaining.2 (goesOn _ le_rfl)

/-- A chain of calls without a sign behind it is read. -/
theorem ChainsCalls.reads {value : Expression} (chains : ChainsCalls σ ρ value)
    (unclosed : value.endsInPostfix = false) : ReadsAt σ ρ 10 value := by
  intro taken rest bound spelled within ends
  obtain ⟨noCall, noProperty, -⟩ := extendsOperand_eq_false.1 (ends.complete unclosed)
  exact chains spelled within fun count _ => reads_callWithin_stop noCall noProperty count value

/-- A rule leaves an expression of a tighter rank as it is. -/
theorem ReadsAt.loosen {rank : Nat} {value : Expression} (reads : ReadsAt σ ρ (rank + 1) value)
    (canonical : value.Canonical) (tighter : rank + 1 ≤ value.rank) : ReadsAt σ ρ rank value := by
  have highest := canonical.rank_le
  intro taken rest bound spelled within ends
  have read := reads spelled within (ends.mono (Nat.le_succ rank))
  obtain ⟨later, starts⟩ := value.pieces_eq_cons
  have ahead : kindAhead (taken ++ rest) = value.first.kind :=
    Spells.kindAhead (starts ▸ spelled) rest
  rcases Nat.lt_or_ge rank 8 with low | high
  · by_cases loops : rank = 1
    · subst loops
      have notIf : kindAhead (taken ++ rest) ≠ .keyword .ifWord := by
        intro word
        rcases canonical.first_kind with primary | ⟨_, sign⟩ | ⟨low, _⟩
        · simp [← ahead, word, TokenKind.beginsPrimary] at primary
        · simp [← ahead, word, TokenKind.isPrefixSign] at sign
        · omega
      exact (reads_eat_none notIf).bind read
    · exact (reads.chains low loops).reads low spelled within ends
  · obtain rfl | rfl : rank = 8 ∨ rank = 9 := by omega
    · apply reads_remaining.2
      cases count : (taken ++ rest).length with
      | zero => exact read
      | succ count =>
          refine (reads_eatOneOf_none fun sign found member => ?_).bind read
          rcases canonical.first_kind with primary | ⟨low, _⟩ | ⟨low, _⟩
          · simp [← ahead, found, TokenKind.beginsPrimary] at primary
          · omega
          · omega
    · have whole : value.rank = 10 := by omega
      have stops := ends.complete (canonical.endsInPostfix_eq_false whole)
      apply read.bind
      apply reads_cursor
      intro cursor ended stands
      have closed : closesOperand cursor = false := by
        rw [closesOperand_eq ended, stands]
        exact (extendsOperand_eq_false.1 stops).2.2
      rw [closed]
      exact reads_pure value rest

/-- All rules down to an expression's own read it when its own rule does. -/
theorem ReadsAt.loosenTo {value : Expression} (own : ReadsAt σ ρ value.rank value)
    (canonical : value.Canonical) : ∀ rank ≤ value.rank, ReadsAt σ ρ rank value := by
  intro rank le
  induction le using Nat.decreasingInduction with
  | self => exact own
  | of_succ rank below inductionHypothesis =>
      exact inductionHypothesis.loosen canonical below

/-- An expression whose own rule has no loop starts longer ones as an operand. -/
theorem Readable.ofWhole {value : Expression} (canonical : value.Canonical)
    (own : ReadsAt σ ρ value.rank value)
    (alone : 8 ≤ value.rank ∨ value.rank = 1)
    (calls : value.rank = 10 → ChainsCalls σ ρ value) : Readable σ ρ value := by
  have whole := own.loosenTo canonical
  refine ⟨whole, fun rank le low loops => ?_, calls⟩
  exact (whole (rank + 1) (by omega)).chains low loops

/-- An operand that the rule of primary expressions reads. -/
theorem Readable.ofPrimary {value : Expression} (canonical : value.Canonical)
    (tight : value.rank = 10)
    (reads : ∀ {taken rest : List Token} {bound : Nat}, Spells value.pieces taken →
      (taken ++ rest).length ≤ bound + 1 →
        Reads (primary (expressionWithin bound : Parser σ ρ Expression)) (taken ++ rest) value
          rest) : Readable σ ρ value := by
  have calls : ChainsCalls σ ρ value := by
    intro taken rest after bound whole spelled within goesOn
    apply (reads spelled within).bind
    exact reads_remaining.2 (goesOn _ le_rfl)
  have own : ReadsAt σ ρ value.rank value := by
    rw [tight]
    exact calls.reads (canonical.endsInPostfix_eq_false tight)
  exact .ofWhole canonical own (.inl (by omega)) fun _ => calls

/-- A readable expression stands inside another one. -/
theorem Readable.inside {value : Expression} (readable : Readable σ ρ value)
    {taken rest : List Token} {bound : Nat} (spelled : Spells value.pieces taken)
    (within : (taken ++ rest).length ≤ bound)
    (ends : value.EndsBefore 0 (rest.map Token.kind)) :
    Reads (expressionWithin bound : Parser σ ρ Expression) (taken ++ rest) value rest := by
  cases bound with
  | zero =>
      obtain ⟨later, starts⟩ := value.pieces_eq_cons
      obtain ⟨token, others, -, -, rfl⟩ := spells_cons.1 (starts ▸ spelled)
      simp at within
  | succ bound => exact readable.whole 0 (Nat.zero_le _) spelled within ends

section Forms

variable {inner : Parser σ ρ Expression}

theorem reads_identifier {token : Token} {rest : List Token} (kind : token.kind = .identifier) :
    Reads (identifier : Parser σ ρ Identifier) (token :: rest) ⟨token⟩ rest :=
  (reads_eat (by simp) kind).bind (reads_make _ _ rest)

theorem reads_primary_identifier {token : Token} {rest : List Token}
    (kind : token.kind = .identifier) :
    Reads (primary inner) (token :: rest) (.identifier ⟨token⟩) rest := by
  apply (reads_eat_none (by simp [kind])).bind
  apply (reads_eat_none (by simp [kind])).bind
  apply (reads_eat_none (by simp [kind])).bind
  apply (reads_eat_none (by simp [kind])).bind
  exact (reads_identifier kind).bind (reads_pure _ rest)

theorem reads_primary_boolean {token : Token} {rest : List Token}
    (kind : token.kind = .literal .boolean) :
    Reads (primary inner) (token :: rest) (.boolean token (token.lexeme = "true")) rest := by
  apply (reads_eat_none (by simp [kind])).bind
  apply (reads_eat_none (by simp [kind])).bind
  exact (reads_eat (by simp) kind).bind (reads_make _ _ rest)

theorem reads_primary_number {token : Token} {value : Binary64} {rest : List Token}
    (kind : token.kind = .literal .number) (decoded : Binary64.read? token.lexeme = some value) :
    Reads (primary inner) (token :: rest) (.number token value) rest := by
  have reads : Reads (numberValue token : Parser σ ρ Binary64) rest value rest := by
    unfold numberValue
    rw [decoded]
    exact reads_pure value rest
  apply (reads_eat_none (by simp [kind])).bind
  apply (reads_eat (by simp) kind).bind
  exact reads.bind (reads_make _ _ rest)

theorem reads_primary_string {token : Token} {rest : List Token}
    (kind : token.kind = .literal .string) :
    Reads (primary inner) (token :: rest) (.string token (stringContents token.lexeme)) rest := by
  apply (reads_eat_none (by simp [kind])).bind
  apply (reads_eat_none (by simp [kind])).bind
  apply (reads_eat_none (by simp [kind])).bind
  exact (reads_eat (by simp) kind).bind (reads_make _ _ rest)

end Forms

section Parts

/-- A group is read when its content is. -/
theorem readable_group {opening close : Token} {content : Expression}
    (openingKind : opening.kind = .bracket .openParen)
    (closeKind : close.kind = .bracket .closeParen) (contentReadable : Readable σ ρ content)
    (canonical : (Expression.group opening content close).Canonical) :
    Readable σ ρ (.group opening content close) := by
  refine .ofPrimary canonical rfl fun {taken rest bound} spelled within => ?_
  obtain ⟨first, others, rfl, spelledOthers, rfl⟩ := spells_cons.1 spelled
  obtain ⟨inner, last, spelledInner, spelledLast, rfl⟩ := spells_append.1 spelledOthers
  obtain ⟨_, _, rfl, spelledNil, rfl⟩ := spells_cons.1 spelledLast
  obtain rfl := spells_nil.1 spelledNil
  rw [List.cons_append, List.append_assoc] at within ⊢
  apply (reads_eat (by simp) openingKind).bind
  refine (contentReadable.inside spelledInner (by simpa using within) ?_).bind ?_
  · exact Expression.endsBefore_ofEnd (by simp [closeKind, TokenKind.endsExpression]) 0 content
  · exact (reads_expectBracket closeKind).bind (reads_make _ _ rest)

/-- A property is read when its receiver is, as a link of a chain. -/
theorem readable_property {receiver : Expression} {name : Identifier}
    (kind : name.token.kind = .identifier) (receiverReadable : Readable σ ρ receiver)
    (receiverRank : receiver.rank = 10)
    (canonical : (Expression.property receiver name).Canonical) :
    Readable σ ρ (.property receiver name) := by
  have calls : ChainsCalls σ ρ (.property receiver name) := by
    intro taken rest after bound whole spelled within goesOn
    obtain ⟨first, tail, spelledFirst, spelledTail, rfl⟩ := spells_append.1 spelled
    obtain ⟨dot, others, dotKind, spelledOthers, rfl⟩ := spells_cons.1 spelledTail
    obtain ⟨_, _, rfl, spelledNil, rfl⟩ := spells_cons.1 spelledOthers
    obtain rfl := spells_nil.1 spelledNil
    rw [List.append_assoc] at within ⊢
    apply receiverReadable.calls receiverRank spelledFirst within
    intro count counted
    have dotKind : dot.kind = .symbol .dot := dotKind
    obtain ⟨count, rfl⟩ : ∃ before, count = before + 1 :=
      Nat.exists_eq_add_one_of_ne_zero (by rintro rfl; simp at counted)
    apply (reads_eat_none (by simp [dotKind])).bind
    apply (reads_eat (by simp) dotKind).bind
    apply (reads_identifier kind).bind
    refine (reads_make _ _ rest).bind (goesOn count ?_)
    simp only [List.cons_append, List.nil_append, List.length_cons] at counted
    omega
  have own : ReadsAt σ ρ 10 (.property receiver name) := calls.reads rfl
  exact .ofWhole canonical own (.inl (by simp [Expression.rank])) fun _ => calls

/-- A call is read when its receiver and its arguments are, as a link of a chain. -/
theorem readable_call {receiver : Expression} {arguments : List Expression} {close : Token}
    (closeKind : close.kind = .bracket .closeParen) (receiverReadable : Readable σ ρ receiver)
    (receiverRank : receiver.rank = 10)
    (argumentsReadable : ∀ argument ∈ arguments, argument.Canonical ∧ Readable σ ρ argument)
    (canonical : (Expression.call receiver arguments close).Canonical) :
    Readable σ ρ (.call receiver arguments close) := by
  have calls : ChainsCalls σ ρ (.call receiver arguments close) := by
    intro taken rest after bound whole spelled within goesOn
    rw [Expression.pieces, Expression.piecesOfAll_eq_map] at spelled
    obtain ⟨first, tail, spelledFirst, spelledTail, rfl⟩ := spells_append.1 spelled
    obtain ⟨opening, others, openingKind, spelledOthers, rfl⟩ := spells_cons.1 spelledTail
    obtain ⟨listed, last, spelledListed, spelledLast, rfl⟩ := spells_append.1 spelledOthers
    obtain ⟨_, _, rfl, spelledNil, rfl⟩ := spells_cons.1 spelledLast
    obtain rfl := spells_nil.1 spelledNil
    rw [List.append_assoc, List.cons_append, List.append_assoc] at within ⊢
    apply receiverReadable.calls receiverRank spelledFirst within
    intro count counted
    obtain ⟨count, rfl⟩ : ∃ before, count = before + 1 :=
      Nat.exists_eq_add_one_of_ne_zero (by rintro rfl; simp at counted)
    have shorter : (listed ++ ([close] ++ rest)).length ≤ bound := by
      simp only [List.length_append, List.length_cons] at within ⊢
      omega
    have readsArguments : Reads (listItems (expressionWithin bound : Parser σ ρ Expression))
        (listed ++ ([close] ++ rest)) arguments ([close] ++ rest) := by
      refine reads_listItems (fun argument member => ?_)
        (fun argument member taken rest spelled within ends => ?_) spelledListed closeKind shorter
      · obtain ⟨later, starts⟩ := argument.pieces_eq_cons
        have begins := (argumentsReadable argument member).1.begins
        exact ⟨_, later, starts, TokenKind.ne_of_beginsExpression begins rfl,
          TokenKind.ne_of_beginsExpression begins rfl⟩
      · apply (argumentsReadable argument member).2.inside spelled within
        refine Expression.endsBefore_ofEnd ?_ 0 argument
        have ahead : (rest.map Token.kind).headD .eof = kindAhead rest := rfl
        rcases ends with comma | closes
        · rw [ahead, comma]
          rfl
        · rw [ahead, closes]
          rfl
    apply (reads_eat (by simp) openingKind).bind
    apply readsArguments.bind
    apply (reads_expectBracket closeKind).bind
    refine (reads_make _ _ rest).bind (goesOn count ?_)
    simp only [List.length_append, List.length_cons] at counted
    omega
  have own : ReadsAt σ ρ 10 (.call receiver arguments close) := calls.reads rfl
  exact .ofWhole canonical own (.inl (by simp [Expression.rank])) fun _ => calls

/-- A sign behind an operand is read when nothing follows that it could stand before. -/
theorem readable_postfixed {operand : Expression} {operation : Operation} {token : Token}
    (meaning : token.operation? .after = some operation) (operandReadable : Readable σ ρ operand)
    (operandRank : operand.rank = 10)
    (canonical : (Expression.postfixed operand operation token).Canonical) :
    Readable σ ρ (.postfixed operand operation token) := by
  have own : ReadsAt σ ρ 9 (.postfixed operand operation token) := by
    intro taken rest bound spelled within ends
    obtain ⟨first, tail, spelledFirst, spelledTail, rfl⟩ := spells_append.1 spelled
    obtain ⟨_, _, rfl, spelledNil, rfl⟩ := spells_cons.1 spelledTail
    obtain rfl := spells_nil.1 spelledNil
    rw [List.append_assoc] at within ⊢
    obtain ⟨sign, kind, meaningOfSign⟩ := Token.operation?_eq_some.1 meaning
    have readsOperand : Reads (call (expressionWithin bound : Parser σ ρ Expression))
        (first ++ ([token] ++ rest)) operand ([token] ++ rest) := by
      apply operandReadable.calls operandRank spelledFirst within
      intro count _
      exact reads_callWithin_stop (by simp [kind]) (by simp [kind]) count operand
    apply readsOperand.bind
    apply reads_cursor
    intro cursor ended stands
    have closes : closesOperand cursor = true := by
      have member : sign ∈ postfixSigns := mem_postfixSigns.2 ⟨operation, meaningOfSign⟩
      rw [closesOperand_eq ended, stands]
      exact closesAhead_iff.2 ⟨sign, member, kind, ends.closed rfl⟩
    rw [closes]
    apply (reads_advance (by simp [kind])).bind
    exact (reads_operation meaning rest).bind (reads_make _ _ rest)
  exact .ofWhole canonical own (.inl (by simp [Expression.rank])) (by simp [Expression.rank])

/-- A sign before an operand is read when the operand is. -/
theorem readable_prefixed {operand : Expression} {operation : Operation} {token : Token}
    (meaning : token.operation? .before = some operation) (operandReadable : Readable σ ρ operand)
    (operandRank : 8 ≤ operand.rank)
    (canonical : (Expression.prefixed operation token operand).Canonical) :
    Readable σ ρ (.prefixed operation token operand) := by
  have own : ReadsAt σ ρ 8 (.prefixed operation token operand) := by
    intro taken rest bound spelled within ends
    obtain ⟨_, others, rfl, spelledOthers, rfl⟩ := spells_cons.1 spelled
    rw [List.cons_append] at within ⊢
    have shorter : (others ++ rest).length ≤ bound + 1 := by
      rw [List.length_cons] at within
      omega
    have endsOperand : operand.EndsBefore 8 (rest.map Token.kind) :=
      ⟨ends.looser, ends.complete, ends.closed⟩
    have readsOperand := operandReadable.whole 8 operandRank spelledOthers shorter endsOperand
    obtain ⟨sign, kind, meaningOfSign⟩ := Token.operation?_eq_some.1 meaning
    have member : sign ∈ prefixSigns := mem_prefixSigns.2 ⟨operation, meaningOfSign⟩
    apply reads_remaining.2
    rw [List.length_cons]
    apply (reads_eatOneOf kind member).bind
    apply (reads_operation meaning _).bind
    exact (reads_remaining.1 readsOperand).bind (reads_make _ _ rest)
  exact .ofWhole canonical own (.inl (by simp [Expression.rank])) (by simp [Expression.rank])

/-- A conditional is read when its three parts are. -/
theorem readable_conditional {keyword : Token} {condition consequent alternative : Expression}
    (kind : keyword.kind = .keyword .ifWord) (conditionReadable : Readable σ ρ condition)
    (consequentReadable : Readable σ ρ consequent) (alternativeReadable : Readable σ ρ alternative)
    (canonical : (Expression.conditional keyword condition consequent alternative).Canonical) :
    Readable σ ρ (.conditional keyword condition consequent alternative) := by
  have own : ReadsAt σ ρ 1 (.conditional keyword condition consequent alternative) := by
    intro taken rest bound spelled within ends
    obtain ⟨_, others, rfl, spelledOthers, rfl⟩ := spells_cons.1 spelled
    obtain ⟨first, tail, spelledFirst, spelledTail, rfl⟩ := spells_append.1 spelledOthers
    obtain ⟨thenToken, branches, thenKind, spelledBranches, rfl⟩ := spells_cons.1 spelledTail
    obtain ⟨second, last, spelledSecond, spelledLast, rfl⟩ := spells_append.1 spelledBranches
    obtain ⟨elseToken, third, elseKind, spelledThird, rfl⟩ := spells_cons.1 spelledLast
    have thenKind : thenToken.kind = .keyword .thenWord := thenKind
    have elseKind : elseToken.kind = .keyword .elseWord := elseKind
    simp only [List.cons_append, List.append_assoc, List.length_cons, List.length_append]
      at within ⊢
    have endsAlternative : alternative.EndsBefore 0 (rest.map Token.kind) := by
      refine ⟨fun meaning found => ?_, ends.complete, ends.closed⟩
      have below := ends.looser meaning found
      simp [Expression.endsInConditional] at below
    apply (reads_eat (by simp) kind).bind
    refine (conditionReadable.inside spelledFirst (by simp; omega) ?_).bind ?_
    · exact Expression.endsBefore_ofEnd (by simp [thenKind, TokenKind.endsExpression]) 0 condition
    apply ((reads_eat (by simp) thenKind).bind (reads_pure () _)).bind
    refine (consequentReadable.inside spelledSecond (by simp; omega) ?_).bind ?_
    · exact Expression.endsBefore_ofEnd (by simp [elseKind, TokenKind.endsExpression]) 0 consequent
    apply ((reads_eat (by simp) elseKind).bind (reads_pure () _)).bind
    apply (alternativeReadable.inside spelledThird (by simp; omega) endsAlternative).bind
    exact reads_make _ _ rest
  exact .ofWhole canonical own (.inr rfl) (by simp [Expression.rank])

/-- An operator is read between operands that bind tight enough. -/
theorem readable_binary {left right : Expression} {operation : Operation} {token : Token}
    (meaning : token.operation? .between = some operation) (leftReadable : Readable σ ρ left)
    (rightReadable : Readable σ ρ right) (leftRank : operation.rank ≤ left.rank)
    (rightRank : operation.rank < right.rank) (leftFree : left.endsInConditional = false)
    (canonical : (Expression.binary left operation token right).Canonical) :
    Readable σ ρ (.binary left operation token right) := by
  obtain ⟨sign, kind, meaningOfSign⟩ := Token.operation?_eq_some.1 meaning
  obtain ⟨low, loops⟩ := Operator.rank_of_between meaningOfSign
  have chains : ChainsAt σ ρ operation.rank (.binary left operation token right) := by
    intro taken rest after bound whole spelled within ends goesOn
    obtain ⟨first, tail, spelledFirst, spelledTail, rfl⟩ := spells_append.1 spelled
    obtain ⟨_, second, rfl, spelledSecond, rfl⟩ := spells_cons.1 spelledTail
    rw [List.append_assoc, List.cons_append] at within ⊢
    have endsLeft : left.EndsBefore (operation.rank + 1)
        ((token :: (second ++ rest)).map Token.kind) :=
      Expression.endsBefore_ofSign meaning (Nat.lt_succ_self _) leftFree _
    have endsRight : right.EndsBefore (operation.rank + 1) (rest.map Token.kind) :=
      ⟨ends.looser, ends.complete, ends.closed⟩
    refine leftReadable.chain _ leftRank low loops spelledFirst within endsLeft
      fun count counted => ?_
    obtain ⟨count, rfl⟩ : ∃ before, count = before + 1 :=
      Nat.exists_eq_add_one_of_ne_zero (by rintro rfl; simp at counted)
    simp only [List.length_append, List.length_cons] at within counted
    have shorter : (second ++ rest).length ≤ bound + 1 := by
      rw [List.length_append]
      omega
    apply (reads_eatOneOf kind ((mem_signs low).2 ⟨operation, meaningOfSign, rfl⟩)).bind
    apply (reads_operation meaning _).bind
    apply (rightReadable.whole _ rightRank spelledSecond shorter endsRight).bind
    exact (reads_make _ _ rest).bind (goesOn count (by omega))
  have own := (chains.reads low).loosenTo canonical
  refine ⟨own, fun rank le low' loops' => ?_, fun tight => ?_⟩
  · have le : rank ≤ operation.rank := le
    rcases Nat.lt_or_eq_of_le le with below | rfl
    · exact (own (rank + 1) below).chains low' loops'
    · exact chains
  · have tight : operation.rank = 10 := tight
    omega

end Parts

/-- Every canonical expression is read by the rules. -/
theorem Readable.ofCanonical {value : Expression} (canonical : value.Canonical) :
    Readable σ ρ value := by
  have whole := canonical
  induction canonical with
  | identifier kind =>
      refine .ofPrimary whole rfl fun {taken rest bound} spelled _ => ?_
      obtain ⟨_, _, rfl, spelledNil, rfl⟩ := spells_cons.1 spelled
      obtain rfl := spells_nil.1 spelledNil
      exact reads_primary_identifier kind
  | boolean kind decoded =>
      refine .ofPrimary whole rfl fun {taken rest bound} spelled _ => ?_
      obtain ⟨_, _, rfl, spelledNil, rfl⟩ := spells_cons.1 spelled
      obtain rfl := spells_nil.1 spelledNil
      rw [decoded]
      exact reads_primary_boolean kind
  | number kind decoded =>
      refine .ofPrimary whole rfl fun {taken rest bound} spelled _ => ?_
      obtain ⟨_, _, rfl, spelledNil, rfl⟩ := spells_cons.1 spelled
      obtain rfl := spells_nil.1 spelledNil
      exact reads_primary_number kind decoded
  | string kind decoded =>
      refine .ofPrimary whole rfl fun {taken rest bound} spelled _ => ?_
      obtain ⟨_, _, rfl, spelledNil, rfl⟩ := spells_cons.1 spelled
      obtain rfl := spells_nil.1 spelledNil
      rw [decoded]
      exact reads_primary_string kind
  | @binary left right operation token meaning leftCanonical rightCanonical leftRank rightRank
      leftEnd leftReads rightReads =>
      have leftFree : left.endsInConditional = false := by
        by_cases assigns : operation = .assignment
        · exact leftEnd assigns
        · obtain ⟨sign, -, meaningOfSign⟩ := Token.operation?_eq_some.1 meaning
          have loops := (Operator.rank_of_between meaningOfSign).2
          have tight : operation.rank ≠ 0 := by cases operation <;> simp_all [Operation.rank]
          exact leftCanonical.endsInConditional_eq_false (by omega)
      exact readable_binary meaning (leftReads leftCanonical) (rightReads rightCanonical) leftRank
        rightRank leftFree whole
  | prefixed meaning operandCanonical operandRank operandReads =>
      exact readable_prefixed meaning (operandReads operandCanonical) operandRank whole
  | postfixed meaning operandCanonical operandRank operandReads =>
      exact readable_postfixed meaning (operandReads operandCanonical) operandRank whole
  | call receiverCanonical receiverRank argumentsCanonical closeKind receiverReads
      argumentsRead =>
      refine readable_call closeKind (receiverReads receiverCanonical) receiverRank
        (fun argument member => ?_) whole
      have argumentCanonical := argumentsCanonical argument member
      exact ⟨argumentCanonical, argumentsRead argument member argumentCanonical⟩
  | property receiverCanonical receiverRank kind receiverReads =>
      exact readable_property kind (receiverReads receiverCanonical) receiverRank whole
  | group openingKind contentCanonical closeKind contentReads =>
      exact readable_group openingKind closeKind (contentReads contentCanonical) whole
  | conditional kind conditionCanonical consequentCanonical alternativeCanonical conditionReads
      consequentReads alternativeReads =>
      exact readable_conditional kind (conditionReads conditionCanonical)
        (consequentReads consequentCanonical) (alternativeReads alternativeCanonical) whole

/-- The grammar reads a canonical expression that ends before what follows it. -/
theorem reads_expression {value : Expression} (canonical : value.Canonical)
    {taken rest : List Token} (spelled : Spells value.pieces taken)
    (ends : value.EndsBefore 0 (rest.map Token.kind)) :
    Reads (expression : Parser σ ρ Expression) (taken ++ rest) value rest :=
  reads_remaining.2 ((Readable.ofCanonical canonical).inside spelled le_rfl ends)

end Parser

end FrontEnd
