/-
This file runs the rules of expressions on the tokens ahead of them. Each rule takes what can stand
ahead of its place, without a report, and leaves what can stand ahead of the place after it.
-/

import FrontEnd.Proofs.Grammar.Prospects
import FrontEnd.Proofs.Token.Spelling

namespace FrontEnd

open Grammar (Derives Nonterminal)

/-- Tokens that are written in a text, without a sign that the parser would lose to an `if`. -/
structure Fit (tokens : List Token) : Prop where
  written : Written tokens
  apart : SignsApart (tokens.map Token.kind)

/-- What is left of fit tokens is fit. -/
theorem Fit.suffix {before after : List Token} (fit : Fit before) (suffix : after <:+ before) :
    Fit after :=
  ⟨fit.written.suffix suffix, fit.apart.suffix suffix⟩

namespace Parser

variable {σ ρ α β : Type}

/-- A parser accepts some tokens when it reads a value from them, without a report, and leaves
tokens of some form. -/
def Accepts (parser : Parser σ ρ α) (before : List Token) (leaves : List Token → Prop) : Prop :=
  ∃ value after, Reads parser before value after ∧ after <:+ before ∧ leaves after

/-- A parser takes tokens when it accepts them and does not leave them all. -/
def Takes (parser : Parser σ ρ α) (before : List Token) (leaves : List Token → Prop) : Prop :=
  Accepts parser before fun after => after.length < before.length ∧ leaves after

section Accepts

variable {first parser : Parser σ ρ α} {rest : α → Parser σ ρ β} {before middle : List Token}
  {value : α} {between leaves leaves' : List Token → Prop}

/-- What is read is accepted. -/
theorem Reads.accepts {after : List Token} (reads : Reads parser before value after)
    (suffix : after <:+ before) (left : leaves after) : Accepts parser before leaves :=
  ⟨value, after, reads, suffix, left⟩

/-- What leaves tokens of some sort leaves tokens of a wider one. -/
theorem Accepts.mono (accepts : Accepts parser before leaves)
    (weaker : ∀ after, after <:+ before → leaves after → leaves' after) :
    Accepts parser before leaves' := by
  obtain ⟨value, after, reads, suffix, left⟩ := accepts
  exact ⟨value, after, reads, suffix, weaker after suffix left⟩

/-- The rest of a sequence accepts what its first part leaves. -/
theorem Accepts.bind (accepts : Accepts first before between)
    (acceptsRest : ∀ value middle, middle <:+ before → between middle →
      Accepts (rest value) middle leaves) : Accepts (first >>= rest) before leaves := by
  obtain ⟨value, middle, reads, suffix, stands⟩ := accepts
  obtain ⟨result, after, readsRest, suffixRest, left⟩ := acceptsRest value middle suffix stands
  exact ⟨result, after, reads.bind readsRest, suffixRest.trans suffix, left⟩

theorem Reads.bindAccepts (reads : Reads first before value middle) (suffix : middle <:+ before)
    (acceptsRest : Accepts (rest value) middle leaves) :
    Accepts (first >>= rest) before leaves := by
  obtain ⟨result, after, readsRest, suffixRest, left⟩ := acceptsRest
  exact ⟨result, after, reads.bind readsRest, suffixRest.trans suffix, left⟩

theorem accepts_remaining {use : Nat → Parser σ ρ α}
    (accepts : Accepts (use before.length) before leaves) :
    Accepts (remaining >>= use) before leaves := by
  obtain ⟨value, after, reads, suffix, left⟩ := accepts
  exact ⟨value, after, reads_remaining.2 reads, suffix, left⟩

/-- What is done next may depend on the cursor by what all cursors at this place show. -/
theorem accepts_cursor {use : TokenCursor → Parser σ ρ α} (parser : Parser σ ρ α)
    (same : ∀ cursor : TokenCursor, cursor.marker.kind = .eof → cursor.rest = before →
      use cursor = parser) (accepts : Accepts parser before leaves) :
    Accepts (cursor >>= use) before leaves := by
  obtain ⟨value, after, reads, suffix, left⟩ := accepts
  refine ⟨value, after, reads_cursor fun cursor ends starts => ?_, suffix, left⟩
  rw [same cursor ends starts]
  exact reads

/-- What is accepted after a token takes the token too. -/
theorem Reads.bindTakes {token : Token} (reads : Reads first (token :: middle) value middle)
    (acceptsRest : Accepts (rest value) middle leaves) :
    Takes (first >>= rest) (token :: middle) leaves := by
  apply reads.bindAccepts (List.suffix_cons token middle)
  exact acceptsRest.mono fun after suffix left => ⟨Nat.lt_succ_of_le suffix.length_le, left⟩

/-- A sequence that takes a token first leaves fewer than there were. -/
theorem Takes.bind (takes : Takes first before between)
    (acceptsRest : ∀ value middle, middle <:+ before → middle.length < before.length →
      between middle → Accepts (rest value) middle leaves) :
    Takes (first >>= rest) before leaves := by
  refine Accepts.bind takes fun value middle suffix ⟨shorter, stands⟩ => ?_
  refine (acceptsRest value middle suffix shorter stands).mono fun after suffixRest left =>
    ⟨suffixRest.length_le.trans_lt shorter, left⟩

/-- What takes a token accepts. -/
theorem Takes.accepts (takes : Takes parser before leaves) : Accepts parser before leaves :=
  takes.mono fun _ _ left => left.2

theorem Takes.mono (takes : Takes parser before leaves)
    (weaker : ∀ after, leaves after → leaves' after) : Takes parser before leaves' :=
  Accepts.mono takes fun after _ ⟨shorter, left⟩ => ⟨shorter, weaker after left⟩

theorem accepts_make [Observer σ] {node : α → Node} {value : α} (left : leaves before) :
    Accepts (make node value : Parser σ ρ α) before leaves :=
  (reads_make node value before).accepts (List.suffix_refl before) left

theorem accepts_pure {value : α} (left : leaves before) :
    Accepts (pure value : Parser σ ρ α) before leaves :=
  (reads_pure value before).accepts (List.suffix_refl before) left

/-- An item is taken first and the others after it. -/
theorem Takes.acceptsItems {close : Bracket} {item : Parser σ ρ α} {count : Nat}
    (taken : Takes item before between) (more : kindAhead before ≠ .eof)
    (opens : kindAhead before ≠ .bracket close)
    (counted : before.length ≤ count)
    (acceptsRest : ∀ middle, middle <:+ before → middle.length < before.length →
      between middle → ∀ bound, middle.length ≤ bound →
        Accepts (itemsWithin close item bound) middle leaves) :
    Accepts (itemsWithin close item count) before leaves := by
  cases count with
  | zero =>
      obtain rfl := List.eq_nil_of_length_eq_zero (Nat.le_zero.1 counted)
      simp at more
  | succ bound =>
      apply (reads_beforeClose more).bindAccepts (List.suffix_refl before)
      simp only [bne_iff_ne, ne_eq, opens, not_false_eq_true, if_true]
      refine (taken.bind fun value middle suffix shorter stands => ?_).accepts
      apply (acceptsRest middle suffix shorter stands bound (by omega)).bind
      exact fun values after _ left => accepts_pure left

end Accepts

/-- Items of a list are taken one by one, up to the closing parenthesis. -/
theorem accepts_listItems [Receiver ρ] {item : Parser σ ρ α} {nonterminal : Nonterminal}
    {bound : Nat}
    (each : ∀ inside after, Derives nonterminal inside → Fit (inside ++ after) →
      (inside ++ after).length ≤ bound → EndsStatement after →
        kindAhead (inside ++ after) ≠ .eof ∧ kindAhead (inside ++ after) ≠ .bracket .closeParen ∧
          Takes item (inside ++ after) (· = after))
    {listed : List Token} (derives : Derives (.list nonterminal) listed) {close : Token}
    {rest : List Token} (kind : close.kind = .bracket .closeParen)
    (fit : Fit (listed ++ close :: rest)) (within : (listed ++ close :: rest).length ≤ bound) :
    Accepts (listItems item) (listed ++ close :: rest) (· = close :: rest) := by
  let separated : Parser σ ρ α := do
    let value ← item
    separator .closeParen
    return value
  have closes : kindAhead (close :: rest) = .bracket .closeParen := kind
  have stops (count : Nat) : Accepts (itemsWithin .closeParen separated count) (close :: rest)
      (· = close :: rest) :=
    (reads_itemsWithin_nil closes count).accepts (List.suffix_refl _) rfl
  suffices enough : ∀ count, (listed ++ close :: rest).length ≤ count →
      Accepts (itemsWithin .closeParen separated count) (listed ++ close :: rest)
        (· = close :: rest) from accepts_remaining (enough _ le_rfl)
  generalize same : Nonterminal.list nonterminal = whole at derives
  induction derives with
  | noItem => exact fun count _ => stops count
  | @lastItem _ tokens derives =>
      cases same
      intro count counted
      have ends : EndsStatement (close :: rest) := .ofKind closes rfl (by simp)
      obtain ⟨notEnd, notClose, taken⟩ := each tokens _ derives fit within ends
      have separatedTaken : Takes separated (tokens ++ close :: rest) (· = close :: rest) := by
        apply taken.bind
        rintro value _ - - rfl
        apply (reads_separator_close closes).bindAccepts (List.suffix_refl _)
        exact accepts_pure rfl
      apply separatedTaken.acceptsItems notEnd notClose counted
      rintro _ - - rfl bound -
      exact stops bound
  | @moreItems _ first others comma firstDerives commaKind _ _ othersTaken =>
      cases same
      intro count counted
      rw [List.append_assoc, List.cons_append] at fit within counted ⊢
      have ends : EndsStatement (comma :: (others ++ close :: rest)) :=
        .ofKind commaKind rfl (by simp)
      obtain ⟨notEnd, notClose, taken⟩ := each first _ firstDerives fit within ends
      have suffix : others ++ close :: rest <:+ first ++ comma :: (others ++ close :: rest) :=
        ⟨first ++ [comma], by simp⟩
      have othersTaken := othersTaken (fit.suffix suffix) (suffix.length_le.trans within) rfl
      have separatedTaken : Takes separated (first ++ comma :: (others ++ close :: rest))
          (· = others ++ close :: rest) := by
        apply taken.bind
        rintro value _ - - rfl
        apply (reads_separator_comma commaKind).bindAccepts (List.suffix_cons comma _)
        exact accepts_pure rfl
      apply separatedTaken.acceptsItems notEnd notClose counted
      rintro _ - - rfl bound counted
      exact othersTaken bound counted
  | _ => cases same

end Parser

end FrontEnd
