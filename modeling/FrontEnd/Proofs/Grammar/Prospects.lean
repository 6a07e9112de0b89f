/-
This file describes what can stand ahead of a parser that takes all it can get. Statements have no
separators, so the parser may take the beginning of the next statement for a part of this one. The
forms of the tokens ahead are closed under this, and all derivations have them.
-/

import FrontEnd.Proofs.Grammar.Derivations
import FrontEnd.Proofs.Parser.Reading

namespace FrontEnd

open Grammar (Derives Nonterminal)

namespace Grammar

theorem binarySigns_eq {rank : Nat} (low : rank < 8) : binarySigns rank = Parser.signs rank := by
  have same : ∀ rank : Fin 8, binarySigns rank = Parser.signs rank := by decide
  exact same ⟨rank, low⟩

/-- The operators of a rank have a meaning of this rank between operands. -/
theorem mem_binarySigns {rank : Nat} {sign : Operator} (member : sign ∈ binarySigns rank) :
    ∃ operation, sign.operation? .between = some operation ∧ operation.rank = rank := by
  have low : rank < 8 := by
    unfold binarySigns at member
    split at member
    all_goals first | decide | cases member
  rw [binarySigns_eq low] at member
  exact (Parser.mem_signs low).1 member

end Grammar

/-- A place of the parser: before the next statement or the end, before an expression of some rank,
after an operand, which may be closed by a sign, or after a name, which may have a type. -/
inductive Place where
  | next
  | opening (rank : Nat)
  | after (closed : Bool)
  | bound (typed : Bool)
  deriving DecidableEq, Repr

/-- What can stand ahead of a place up to the last tokens. Only in a block other statements can come
before these. -/
inductive Ahead (inBlock : Bool) (last : List Token) : Place → List Token → Prop
  | finish : Ahead inBlock last .next last
  | evaluated {tokens : List Token} (block : inBlock)
      (opens : Ahead inBlock last (.opening 0) tokens) : Ahead inBlock last .next tokens
  | returned {keyword : Token} {rest : List Token} (block : inBlock)
      (kind : keyword.kind = .keyword .returnWord)
      (opens : Ahead inBlock last (.opening 0) rest) : Ahead inBlock last .next (keyword :: rest)
  | defined {keyword name : Token} {rest : List Token} (block : inBlock)
      (kind : keyword.kind = .keyword .letWord) (nameKind : name.kind = .identifier)
      (binds : Ahead inBlock last (.bound false) rest) :
      Ahead inBlock last .next (keyword :: name :: rest)
  | conditional {rank : Nat} {keyword thenWord elseWord : Token}
      {condition consequent rest : List Token} (loose : rank ≤ 1)
      (keywordKind : keyword.kind = .keyword .ifWord)
      (conditionDerives : Derives (.expression 0) condition)
      (thenKind : thenWord.kind = .keyword .thenWord)
      (consequentDerives : Derives (.expression 0) consequent)
      (elseKind : elseWord.kind = .keyword .elseWord)
      (opens : Ahead inBlock last (.opening 0) rest) :
      Ahead inBlock last (.opening rank)
        (keyword :: (condition ++ thenWord :: (consequent ++ elseWord :: rest)))
  | prefixed {rank : Nat} {token : Token} {operation : Operation} {rest : List Token}
      (loose : rank ≤ 8) (meaning : token.operation? .before = some operation)
      (opens : Ahead inBlock last (.opening 8) rest) :
      Ahead inBlock last (.opening rank) (token :: rest)
  | leaf {rank : Nat} {token : Token} {rest : List Token}
      (kind : token.kind = .identifier ∨ ∃ sort, token.kind = .literal sort)
      (goesOn : Ahead inBlock last (.after false) rest) :
      Ahead inBlock last (.opening rank) (token :: rest)
  | group {rank : Nat} {opening close : Token} {content rest : List Token}
      (openingKind : opening.kind = .bracket .openParen)
      (contentDerives : Derives (.expression 0) content)
      (closeKind : close.kind = .bracket .closeParen)
      (goesOn : Ahead inBlock last (.after false) rest) :
      Ahead inBlock last (.opening rank) (opening :: (content ++ close :: rest))
  | call {opening close : Token} {arguments rest : List Token}
      (openingKind : opening.kind = .bracket .openParen)
      (argumentsDerive : Derives (.list (.expression 0)) arguments)
      (closeKind : close.kind = .bracket .closeParen)
      (goesOn : Ahead inBlock last (.after false) rest) :
      Ahead inBlock last (.after false) (opening :: (arguments ++ close :: rest))
  | property {dot name : Token} {rest : List Token} (dotKind : dot.kind = .symbol .dot)
      (nameKind : name.kind = .identifier) (goesOn : Ahead inBlock last (.after false) rest) :
      Ahead inBlock last (.after false) (dot :: name :: rest)
  | postfixed {token : Token} {operation : Operation} {rest : List Token}
      (meaning : token.operation? .after = some operation)
      (apart : kindAhead rest ≠ .keyword .ifWord) (goesOn : Ahead inBlock last (.after true) rest) :
      Ahead inBlock last (.after false) (token :: rest)
  | binary {closed : Bool} {token : Token} {operation : Operation} {rest : List Token}
      (meaning : token.operation? .between = some operation)
      (opens : Ahead inBlock last (.opening (operation.rank + 1)) rest) :
      Ahead inBlock last (.after closed) (token :: rest)
  | stop {closed : Bool} {tokens : List Token} (follows : Ahead inBlock last .next tokens) :
      Ahead inBlock last (.after closed) tokens
  | annotated {colon name : Token} {rest : List Token} (colonKind : colon.kind = .symbol .colon)
      (nameKind : name.kind = .identifier) (binds : Ahead inBlock last (.bound true) rest) :
      Ahead inBlock last (.bound false) (colon :: name :: rest)
  | assigned {typed : Bool} {equals : Token} {rest : List Token}
      (kind : equals.kind = .operator .equals) (opens : Ahead inBlock last (.opening 0) rest) :
      Ahead inBlock last (.bound typed) (equals :: rest)
  | unassigned {typed : Bool} {tokens : List Token} (follows : Ahead inBlock last .next tokens) :
      Ahead inBlock last (.bound typed) tokens

/-- A kind that ends expressions and does not begin a type ends statements too. -/
def EndsStatement (last : List Token) : Prop :=
  (kindAhead last).endsExpression ∧ kindAhead last ≠ .symbol .colon

theorem EndsStatement.ofKind {tokens : List Token} {kind : TokenKind}
    (same : kindAhead tokens = kind) (ends : kind.endsExpression)
    (untyped : kind ≠ .symbol .colon) : EndsStatement tokens := by
  rw [← same] at ends untyped
  exact ⟨ends, untyped⟩

/-- No operator goes on behind a statement that has ended. -/
theorem EndsStatement.noSign {last : List Token} (ends : EndsStatement last) (sign : Operator) :
    kindAhead last ≠ .operator sign :=
  TokenKind.ne_of_endsExpression ends.1 rfl

/-- A sign that can stand after an operand can stand before one too. -/
theorem Token.signs_of_after {token : Token} {operation : Operation}
    (meaning : token.operation? .after = some operation) :
    ∃ sign, token.kind = .operator sign ∧ sign ∈ Parser.postfixSigns ∧
      ∃ operation', token.operation? .before = some operation' := by
  obtain ⟨sign, kind, meaning⟩ := Token.operation?_eq_some.1 meaning
  have member := Parser.mem_postfixSigns.2 ⟨operation, meaning⟩
  have both : ∀ sign ∈ Parser.postfixSigns, sign ∈ Parser.prefixSigns := by decide
  obtain ⟨operation', meaning'⟩ := Parser.mem_prefixSigns.1 (both sign member)
  exact ⟨sign, kind, member, operation', Token.operation?_eq_some.2 ⟨sign, kind, meaning'⟩⟩

namespace Ahead

variable {inBlock : Bool} {last tokens rest : List Token} {token : Token}

/-- A looser rule can start in all the ways that a tighter one can. -/
theorem loosen {rank rank' : Nat} (ahead : Ahead inBlock last (.opening rank) tokens)
    (looser : rank' ≤ rank) : Ahead inBlock last (.opening rank') tokens := by
  cases ahead with
  | conditional loose keywordKind conditionDerives thenKind consequentDerives elseKind opens =>
      exact .conditional (looser.trans loose) keywordKind conditionDerives thenKind
        consequentDerives elseKind opens
  | prefixed loose meaning opens => exact .prefixed (looser.trans loose) meaning opens
  | leaf kind goesOn => exact .leaf kind goesOn
  | group openingKind contentDerives closeKind goesOn =>
      exact .group openingKind contentDerives closeKind goesOn

/-- A tighter rule can start here too, unless an `if` or a sign ahead is too loose for it. -/
theorem tighten {rank rank' : Nat} (ahead : Ahead inBlock last (.opening rank) tokens)
    (word : rank ≤ 1 → kindAhead tokens = .keyword .ifWord → rank' ≤ 1)
    (sign : rank ≤ 8 → (kindAhead tokens).isPrefixSign → rank' ≤ 8) :
    Ahead inBlock last (.opening rank') tokens := by
  cases ahead with
  | conditional loose keywordKind conditionDerives thenKind consequentDerives elseKind opens =>
      exact .conditional (word loose keywordKind) keywordKind conditionDerives thenKind
        consequentDerives elseKind opens
  | prefixed loose meaning opens =>
      exact .prefixed (sign loose (Token.isPrefixSign_of_operation? meaning)) meaning opens
  | leaf kind goesOn => exact .leaf kind goesOn
  | group openingKind contentDerives closeKind goesOn =>
      exact .group openingKind contentDerives closeKind goesOn

/-- More can stand after an operand that is not closed. -/
theorem reopen (ahead : Ahead inBlock last (.after true) tokens) :
    Ahead inBlock last (.after false) tokens := by
  cases ahead with
  | binary meaning opens => exact .binary meaning opens
  | stop follows => exact .stop follows

/-- An expression begins as the kinds of expressions do. -/
theorem begins {rank : Nat} (ahead : Ahead inBlock last (.opening rank) tokens) :
    (kindAhead tokens).beginsExpression := by
  cases ahead with
  | conditional loose kind => simp [kind, TokenKind.beginsExpression]
  | prefixed loose meaning =>
      simp [TokenKind.beginsExpression, Token.isPrefixSign_of_operation? meaning]
  | leaf kind goesOn =>
      rcases kind with kind | ⟨sort, kind⟩ <;>
        simp [kind, TokenKind.beginsExpression, TokenKind.beginsPrimary]
  | group kind => simp [kind, TokenKind.beginsExpression, TokenKind.beginsPrimary]

theorem prefixed_inv {rank : Nat} {operation : Operation}
    (ahead : Ahead inBlock last (.opening rank) (token :: rest))
    (meaning : token.operation? .before = some operation) :
    Ahead inBlock last (.opening 8) rest := by
  obtain ⟨sign, kind, -⟩ := Token.operation?_eq_some.1 meaning
  cases ahead with
  | prefixed _ _ opens => exact opens
  | conditional _ keywordKind => simp [kind] at keywordKind
  | leaf leafKind => simp [kind] at leafKind
  | group openingKind => simp [kind] at openingKind

/-- Nothing comes before the last tokens outside of blocks. -/
theorem eq_last (ahead : Ahead false last .next tokens) : tokens = last := by
  cases ahead with
  | finish => rfl
  | evaluated block | returned block | defined block => cases block

/-- What comes before the last tokens is another expression, or it begins with a keyword. -/
theorem next_cases (ahead : Ahead inBlock last .next tokens) :
    tokens = last ∨ Ahead inBlock last (.opening 0) tokens ∨
      kindAhead tokens = .keyword .returnWord ∨ kindAhead tokens = .keyword .letWord := by
  cases ahead with
  | finish => exact .inl rfl
  | evaluated block opens => exact .inr (.inl opens)
  | returned block kind => exact .inr (.inr (.inl kind))
  | defined block kind => exact .inr (.inr (.inr kind))

section Inversions

variable (ends : EndsStatement last)

include ends

/-- What follows a statement continues neither a property nor a binding. -/
theorem next_apart (ahead : Ahead inBlock last .next tokens) :
    kindAhead tokens ≠ .symbol .dot ∧ kindAhead tokens ≠ .symbol .colon ∧
      kindAhead tokens ≠ .operator .equals := by
  rcases ahead.next_cases with rfl | opens | word | word
  · exact ⟨TokenKind.ne_of_endsExpression ends.1 rfl, ends.2, ends.noSign .equals⟩
  · have apart {kind : TokenKind} (apart : kind.beginsExpression = false) :
        kindAhead tokens ≠ kind := TokenKind.ne_of_beginsExpression opens.begins apart
    exact ⟨apart rfl, apart rfl, apart rfl⟩
  all_goals simp [word]

/-- A parenthesis after an operand opens its arguments, even if it opened the next statement. -/
theorem call_inv (ahead : Ahead inBlock last (.after false) (token :: rest))
    (kind : token.kind = .bracket .openParen) :
    ∃ arguments close after, rest = arguments ++ close :: after ∧
      Derives (.list (.expression 0)) arguments ∧ close.kind = .bracket .closeParen ∧
        Ahead inBlock last (.after false) after := by
  cases ahead with
  | call _ argumentsDerive closeKind goesOn =>
      exact ⟨_, _, _, rfl, argumentsDerive, closeKind, goesOn⟩
  | property dotKind => simp [kind] at dotKind
  | postfixed meaning | binary meaning =>
      obtain ⟨sign, signKind, -⟩ := Token.operation?_eq_some.1 meaning
      simp [kind] at signKind
  | stop follows =>
      rcases follows.next_cases with same | opens | word | word
      · have ended := ends.1
        rw [← same] at ended
        exact absurd kind (TokenKind.ne_of_endsExpression ended rfl)
      · cases opens with
        | conditional loose keywordKind => simp [kind] at keywordKind
        | prefixed loose meaning =>
            obtain ⟨sign, signKind, -⟩ := Token.operation?_eq_some.1 meaning
            simp [kind] at signKind
        | leaf leafKind => simp [kind] at leafKind
        | group _ contentDerives closeKind goesOn =>
            exact ⟨_, _, _, rfl, .lastItem contentDerives, closeKind, goesOn⟩
      all_goals simp [kind] at word

/-- A point is followed by a name, behind which the operand goes on. -/
theorem property_inv (ahead : Ahead inBlock last (.after false) (token :: rest))
    (kind : token.kind = .symbol .dot) :
    ∃ name after, rest = name :: after ∧ name.kind = .identifier ∧
      Ahead inBlock last (.after false) after := by
  cases ahead with
  | property _ nameKind goesOn => exact ⟨_, _, rfl, nameKind, goesOn⟩
  | call openingKind => simp [kind] at openingKind
  | postfixed meaning | binary meaning =>
      obtain ⟨sign, signKind, -⟩ := Token.operation?_eq_some.1 meaning
      simp [kind] at signKind
  | stop follows => exact absurd kind (follows.next_apart ends).1

/-- A sign that may close an operand is taken, even if it stood before the next statement. -/
theorem postfixed_inv {operation : Operation}
    (ahead : Ahead inBlock last (.after false) (token :: rest))
    (meaning : token.operation? .after = some operation) :
    Ahead inBlock last (.after true) rest := by
  obtain ⟨sign, kind, meaning⟩ := Token.operation?_eq_some.1 meaning
  cases ahead with
  | call openingKind => simp [kind] at openingKind
  | property dotKind => simp [kind] at dotKind
  | postfixed _ _ goesOn => exact goesOn
  | binary between =>
      obtain ⟨sign', kind', between⟩ := Token.operation?_eq_some.1 between
      obtain rfl : sign = sign' := by simpa [kind] using kind'
      cases sign <;> simp [Operator.operation?] at meaning between
  | stop follows =>
      cases follows with
      | finish => exact absurd kind (ends.noSign sign)
      | evaluated block opens =>
          cases opens with
          | conditional loose keywordKind => simp [kind] at keywordKind
          | prefixed loose _ opens => exact .stop (.evaluated block (opens.loosen (Nat.zero_le _)))
          | leaf leafKind => simp [kind] at leafKind
          | group openingKind => simp [kind] at openingKind
      | returned block keywordKind | defined block keywordKind => simp [kind] at keywordKind

/-- An operator between operands is taken, even if it stood before the next statement. -/
theorem binary_inv {closed : Bool} {operation : Operation}
    (ahead : Ahead inBlock last (.after closed) (token :: rest))
    (meaning : token.operation? .between = some operation) :
    Ahead inBlock last (.opening (operation.rank + 1)) rest := by
  obtain ⟨sign, kind, signMeaning⟩ := Token.operation?_eq_some.1 meaning
  have low := (Operator.rank_of_between signMeaning).1
  cases ahead with
  | call openingKind => simp [kind] at openingKind
  | property dotKind => simp [kind] at dotKind
  | postfixed after =>
      obtain ⟨sign', kind', after⟩ := Token.operation?_eq_some.1 after
      obtain rfl : sign = sign' := by simpa [kind] using kind'
      cases sign <;> simp [Operator.operation?] at after signMeaning
  | binary meaning' opens =>
      obtain rfl := Option.some.inj (meaning.symm.trans meaning')
      exact opens
  | stop follows =>
      cases follows with
      | finish => exact absurd kind (ends.noSign sign)
      | evaluated block opens =>
          cases opens with
          | conditional loose keywordKind => simp [kind] at keywordKind
          | prefixed loose _ opens => exact opens.loosen low
          | leaf leafKind => simp [kind] at leafKind
          | group openingKind => simp [kind] at openingKind
      | returned block keywordKind | defined block keywordKind => simp [kind] at keywordKind

/-- A sign before the operand that begins the next statement can begin that statement instead. -/
theorem signed {operation : Operation} (ahead : Ahead inBlock last .next rest)
    (begins : Parser.beginsOperand (kindAhead rest)) (apart : kindAhead rest ≠ .keyword .ifWord)
    (meaning : token.operation? .before = some operation) :
    Ahead inBlock last .next (token :: rest) := by
  cases ahead with
  | finish => exact absurd begins (Bool.eq_false_iff.1 (TokenKind.beginsOperand_eq_false ends.1))
  | evaluated block opens =>
      have noSign : (kindAhead rest).isPrefixSign = false := by
        unfold Parser.beginsOperand at begins
        split at begins <;> simp_all [TokenKind.isPrefixSign]
      have operand : Ahead inBlock last (.opening 8) rest :=
        opens.tighten (fun _ word => absurd word apart) (by simp [noSign])
      exact .evaluated block (.prefixed (Nat.zero_le _) meaning operand)
  | returned block keywordKind | defined block keywordKind =>
      rw [kindAhead_cons, keywordKind] at begins
      cases begins

/-- An operand is closed when nothing ahead goes on with it. A sign that is left then belongs to the
next statement. -/
theorem closed (ahead : Ahead inBlock last (.after false) tokens)
    (stops : extendsOperand (tokens.map Token.kind) = false) :
    Ahead inBlock last (.after true) tokens := by
  obtain ⟨noCall, noProperty, noSign⟩ := extendsOperand_eq_false.1 stops
  cases ahead with
  | call openingKind => exact absurd openingKind noCall
  | property dotKind => exact absurd dotKind noProperty
  | binary meaning opens => exact .binary meaning opens
  | stop follows => exact .stop follows
  | @postfixed token operation rest meaning apart goesOn =>
      obtain ⟨sign, kind, isPostfix, operation', meaning'⟩ := Token.signs_of_after meaning
      have begins : Parser.beginsOperand (kindAhead rest) := by
        rw [← Bool.not_eq_false]
        intro free
        have closes : closesAhead ((token :: rest).map Token.kind) :=
          closesAhead_iff.2 ⟨sign, isPostfix, by simp [kind], free⟩
        rw [noSign] at closes
        cases closes
      cases goesOn with
      | binary between =>
          obtain ⟨sign', kind', -⟩ := Token.operation?_eq_some.1 between
          rw [kindAhead_cons, kind'] at begins
          cases begins
      | stop follows => exact .stop (follows.signed ends begins apart meaning')

/-- A colon is followed by a name, behind which no other type follows. -/
theorem annotated_inv (ahead : Ahead inBlock last (.bound false) (token :: rest))
    (kind : token.kind = .symbol .colon) :
    ∃ name after, rest = name :: after ∧ name.kind = .identifier ∧
      Ahead inBlock last (.bound true) after := by
  cases ahead with
  | annotated _ nameKind binds => exact ⟨_, _, rfl, nameKind, binds⟩
  | assigned equalsKind => simp [kind] at equalsKind
  | unassigned follows => exact absurd kind (follows.next_apart ends).2.1

theorem assigned_inv (ahead : Ahead inBlock last (.bound true) (token :: rest))
    (kind : token.kind = .operator .equals) : Ahead inBlock last (.opening 0) rest := by
  cases ahead with
  | assigned _ opens => exact opens
  | unassigned follows => exact absurd kind (follows.next_apart ends).2.2

end Inversions

/-- When no operator stands ahead, an operand that is closed ends its statement. -/
theorem next_of_after (ahead : Ahead inBlock last (.after true) tokens)
    (stops : operationAhead? (tokens.map Token.kind) = none) : Ahead inBlock last .next tokens := by
  cases ahead with
  | @binary _ token _ rest meaning =>
      obtain ⟨sign, kind, meaning⟩ := Token.operation?_eq_some.1 meaning
      have ahead : ((token :: rest).map Token.kind).headD .eof = .operator sign := kind
      rw [operationAhead?_eq_some.2 ⟨sign, ahead, meaning⟩] at stops
      cases stops
  | stop follows => exact follows

/-- Without a colon ahead there is no type. -/
theorem typed (ahead : Ahead inBlock last (.bound false) tokens)
    (untyped : kindAhead tokens ≠ .symbol .colon) : Ahead inBlock last (.bound true) tokens := by
  cases ahead with
  | annotated colonKind => exact absurd colonKind untyped
  | assigned kind opens => exact .assigned kind opens
  | unassigned follows => exact .unassigned follows

/-- Without an equals sign ahead there is no value. -/
theorem next_of_bound (ahead : Ahead inBlock last (.bound true) tokens)
    (unassigned : kindAhead tokens ≠ .operator .equals) : Ahead inBlock last .next tokens := by
  cases ahead with
  | assigned kind => exact absurd kind unassigned
  | unassigned follows => exact follows

end Ahead

theorem SignsApart.suffix {before after : List Token}
    (apart : SignsApart (before.map Token.kind)) (suffix : after <:+ before) :
    SignsApart (after.map Token.kind) :=
  List.IsChain.suffix apart (suffix.map Token.kind)

/-- After a sign no `if` is ahead. -/
theorem SignsApart.noWord {token : Token} {rest : List Token}
    (apart : SignsApart ((token :: rest).map Token.kind)) (sign : token.kind.isPostfixSign) :
    kindAhead rest ≠ .keyword .ifWord := by
  cases rest with
  | nil => simp
  | cons next rest =>
      rw [List.map_cons, List.map_cons, SignsApart, List.isChain_cons_cons] at apart
      exact apart.1 sign

namespace Grammar.Derives

variable {inBlock : Bool} {last rest : List Token}

/-- What an expression derives stands ahead of it, when what follows can stand after an operand. -/
theorem ahead_expression {rank : Nat} {inside : List Token}
    (derives : Derives (.expression rank) inside)
    (apart : SignsApart ((inside ++ rest).map Token.kind)) :
    (Ahead inBlock last (.after true) rest →
        Ahead inBlock last (.opening rank) (inside ++ rest)) ∧
      (10 ≤ rank → Ahead inBlock last (.after false) rest →
        Ahead inBlock last (.opening rank) (inside ++ rest)) := by
  generalize same : Nonterminal.expression rank = nonterminal at derives
  induction derives generalizing rank rest with
  | tighter _ inner =>
      cases same
      obtain ⟨whole, call⟩ := inner apart rfl
      exact ⟨fun goesOn => (whole goesOn).loosen (Nat.le_succ _),
        fun tight goesOn => (call (by omega) goesOn).loosen (Nat.le_succ _)⟩
  | @binary _ left right token sign kind member _ _ leftAhead rightAhead =>
      cases same
      rw [List.append_assoc, List.cons_append] at apart ⊢
      obtain ⟨operation, meaning, operationRank⟩ := mem_binarySigns member
      have low := (Operator.rank_of_between meaning).1
      have between := Token.operation?_eq_some.2 ⟨sign, kind, meaning⟩
      refine ⟨fun goesOn => ?_, fun tight => by omega⟩
      have rightApart := apart.suffix (⟨left ++ [token], by simp⟩ : right ++ rest <:+ _)
      have rightOpens := (rightAhead rightApart rfl).1 goesOn
      rw [← operationRank] at rightOpens
      exact (leftAhead apart rfl).1 (.binary between rightOpens)
  | @conditional keyword thenWord elseWord condition consequent alternative keywordKind
      conditionDerives thenKind consequentDerives elseKind _ _ _ alternativeAhead =>
      cases same
      simp only [List.cons_append, List.append_assoc] at apart ⊢
      refine ⟨fun goesOn => ?_, fun tight => absurd tight (by decide)⟩
      have alternativeApart := apart.suffix
        (⟨keyword :: (condition ++ thenWord :: (consequent ++ [elseWord])), by simp⟩ :
          alternative ++ rest <:+ _)
      exact .conditional le_rfl keywordKind conditionDerives thenKind consequentDerives elseKind
        ((alternativeAhead alternativeApart rfl).1 goesOn)
  | @prefixed token sign operand kind member _ operandAhead =>
      cases same
      obtain ⟨operation, meaning⟩ := Parser.mem_prefixSigns.1 member
      have before := Token.operation?_eq_some.2 ⟨sign, kind, meaning⟩
      refine ⟨fun goesOn => ?_, fun tight => absurd tight (by decide)⟩
      have operandApart := apart.suffix (List.suffix_cons token (operand ++ rest))
      exact .prefixed le_rfl before ((operandAhead operandApart rfl).1 goesOn)
  | @postfixed operand token sign _ kind member operandAhead =>
      cases same
      rw [List.append_assoc, List.singleton_append] at apart ⊢
      obtain ⟨operation, meaning⟩ := Parser.mem_postfixSigns.1 member
      have after := Token.operation?_eq_some.2 ⟨sign, kind, meaning⟩
      have isPostfix : token.kind.isPostfixSign := by
        simp only [postfixSigns, List.mem_cons, List.not_mem_nil, or_false] at member
        rcases member with rfl | rfl <;> simp [kind, TokenKind.isPostfixSign]
      refine ⟨fun goesOn => ?_, fun tight => absurd tight (by decide)⟩
      have noWord := (apart.suffix (List.suffix_append operand (token :: rest))).noWord isPostfix
      exact ((operandAhead apart rfl).2 le_rfl (.postfixed after noWord goesOn)).loosen (by decide)
  | call _ openingKind argumentsDerive closeKind receiverAhead =>
      cases same
      simp only [List.append_assoc, List.cons_append, List.nil_append] at apart ⊢
      have call : Ahead inBlock last (.after false) rest → _ := fun goesOn =>
        (receiverAhead apart rfl).2 le_rfl (.call openingKind argumentsDerive closeKind goesOn)
      exact ⟨fun goesOn => call goesOn.reopen, fun _ => call⟩
  | property _ dotKind nameKind receiverAhead =>
      cases same
      simp only [List.append_assoc, List.cons_append, List.nil_append] at apart ⊢
      have property : Ahead inBlock last (.after false) rest → _ := fun goesOn =>
        (receiverAhead apart rfl).2 le_rfl (.property dotKind nameKind goesOn)
      exact ⟨fun goesOn => property goesOn.reopen, fun _ => property⟩
  | group openingKind contentDerives closeKind =>
      cases same
      simp only [List.append_assoc, List.cons_append, List.nil_append]
      exact ⟨fun goesOn => .group openingKind contentDerives closeKind goesOn.reopen,
        fun _ goesOn => .group openingKind contentDerives closeKind goesOn⟩
  | literal kind =>
      cases same
      exact ⟨fun goesOn => .leaf (.inr ⟨_, kind⟩) goesOn.reopen,
        fun _ goesOn => .leaf (.inr ⟨_, kind⟩) goesOn⟩
  | identifier kind =>
      cases same
      exact ⟨fun goesOn => .leaf (.inl kind) goesOn.reopen,
        fun _ goesOn => .leaf (.inl kind) goesOn⟩
  | _ => cases same

/-- An expression can open before what follows a statement. -/
theorem opens {inside : List Token} (derives : Derives (.expression 0) inside)
    (apart : SignsApart ((inside ++ rest).map Token.kind))
    (follows : Ahead inBlock last .next rest) :
    Ahead inBlock last (.opening 0) (inside ++ rest) :=
  (derives.ahead_expression apart).1 (.stop follows)

/-- The value of a binding stands ahead of the place after its type. -/
theorem assigned {value : List Token} (derives : Derives (.optional .initializer) value)
    (apart : SignsApart ((value ++ rest).map Token.kind))
    (follows : Ahead inBlock last .next rest) (typed : Bool) :
    Ahead inBlock last (.bound typed) (value ++ rest) := by
  cases derives with
  | absent => exact .unassigned follows
  | present derives =>
      cases derives with
      | @initializer equals value kind valueDerives =>
          have valueApart := apart.suffix (List.suffix_cons equals (value ++ rest))
          exact .assigned kind (valueDerives.opens valueApart follows)

/-- A binding stands ahead of its name. -/
theorem binds {tokens : List Token} (derives : Derives .binding tokens)
    (apart : SignsApart ((tokens ++ rest).map Token.kind))
    (follows : Ahead inBlock last .next rest) :
    ∃ name after, tokens ++ rest = name :: after ∧ name.kind = .identifier ∧
      Ahead inBlock last (.bound false) after := by
  cases derives with
  | @binding name type value kind typeDerives valueDerives =>
      have valueApart := apart.suffix (⟨name :: type, by simp⟩ : value ++ rest <:+ _)
      refine ⟨name, type ++ (value ++ rest), by simp, kind, ?_⟩
      cases typeDerives with
      | absent => exact valueDerives.assigned valueApart follows false
      | present derives =>
          cases derives with
          | typeName colonKind nameKind =>
              exact .annotated colonKind nameKind (valueDerives.assigned valueApart follows true)

/-- A statement stands ahead in a block before what follows it. -/
theorem ahead_statement {tokens : List Token} (derives : Derives .statement tokens)
    (apart : SignsApart ((tokens ++ rest).map Token.kind)) (follows : Ahead true last .next rest) :
    Ahead true last .next (tokens ++ rest) := by
  cases derives with
  | @returned keyword value kind valueDerives =>
      have valueApart := apart.suffix (List.suffix_cons keyword (value ++ rest))
      exact .returned rfl kind (valueDerives.opens valueApart follows)
  | defined derives =>
      cases derives with
      | @definition keyword binding kind bindingDerives =>
          have bindingApart := apart.suffix (List.suffix_cons keyword (binding ++ rest))
          obtain ⟨name, after, same, nameKind, binds⟩ := bindingDerives.binds bindingApart follows
          rw [List.cons_append, same]
          exact .defined rfl kind nameKind binds
  | evaluated derives => exact .evaluated rfl (derives.opens apart follows)

/-- The statements of a block stand ahead of its end. -/
theorem ahead_statements {tokens : List Token} (derives : Derives (.many .statement) tokens)
    (apart : SignsApart ((tokens ++ last).map Token.kind)) :
    Ahead true last .next (tokens ++ last) := by
  generalize same : Nonterminal.many .statement = nonterminal at derives
  induction derives with
  | none => exact .finish
  | @more _ first rest firstDerives _ _ restAhead =>
      cases same
      rw [List.append_assoc] at apart ⊢
      have restApart := apart.suffix (List.suffix_append first (rest ++ last))
      exact firstDerives.ahead_statement apart (restAhead restApart rfl)
  | _ => cases same

end Grammar.Derives

end FrontEnd
