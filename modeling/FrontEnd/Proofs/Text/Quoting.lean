/-
This file tells quoted texts apart. Every escape can be read back, so different texts have different
quoted forms, and a quoted form is never broken into lines.
-/

import FrontEnd.Text.Quoted
import Mathlib.Data.List.Basic

namespace FrontEnd.Text

variable {mark char char' : Char} {first second rest rest' : List Char}

/-- A text up to a mark and the text behind the mark can be told from the whole. -/
theorem append_mark_inj (free : mark ∉ first) (free' : mark ∉ second)
    (same : first ++ mark :: rest = second ++ mark :: rest') : first = second ∧ rest = rest' := by
  induction first generalizing second with
  | nil =>
      cases second with
      | nil => exact ⟨rfl, (List.cons.inj same).2⟩
      | cons char others => exact absurd (List.cons.inj same).1 (List.ne_of_not_mem_cons free')
  | cons char others inductionHypothesis =>
      cases second with
      | nil => exact absurd (List.cons.inj same).1.symm (List.ne_of_not_mem_cons free)
      | cons char' others' =>
          obtain ⟨rfl, tails⟩ := List.cons.inj same
          obtain ⟨rfl, behind⟩ := inductionHypothesis (List.not_mem_of_not_mem_cons free)
            (List.not_mem_of_not_mem_cons free') tails
          exact ⟨rfl, behind⟩

theorem digitChar_injective :
    ∀ digit < 16, ∀ digit' < 16, Nat.digitChar digit = Nat.digitChar digit' → digit = digit' := by
  decide

theorem mem_hexDigits {code : Nat} (member : char ∈ hexDigits code) :
    ∃ digit < 16, char = Nat.digitChar digit := by
  induction code using Nat.strongRecOn with
  | ind code inductionHypothesis =>
      rw [hexDigits, Nat.toDigits_eq_if (by decide)] at member
      split at member
      · next small => exact ⟨code, small, List.mem_singleton.1 member⟩
      · rcases List.mem_append.1 member with front | last
        · exact inductionHypothesis (code / 16) (by omega) front
        · exact ⟨code % 16, Nat.mod_lt code (by decide), List.mem_singleton.1 last⟩

/-- A code can be read off its hexadecimal digits. -/
theorem hexDigits_injective {code code' : Nat} (same : hexDigits code = hexDigits code') :
    code = code' := by
  induction code using Nat.strongRecOn generalizing code' with
  | ind code inductionHypothesis =>
      -- A single digit is not the end of a longer code, which has a digit before it.
      have longer : ∀ (digit : Char) (high : Nat) (last : Char),
          [digit] ≠ Nat.toDigits 16 high ++ [last] := by
        intro digit high last whole
        have front := (List.append_inj' (show [] ++ [digit] = _ from whole) rfl).1
        exact Nat.toDigits_ne_nil front.symm
      rw [hexDigits, hexDigits, Nat.toDigits_eq_if (by decide),
        Nat.toDigits_eq_if (n := code') (by decide)] at same
      split at same <;> split at same
      · next small small' => exact digitChar_injective _ small _ small' (List.singleton_inj.1 same)
      · exact absurd same (longer _ _ _)
      · exact absurd same.symm (longer _ _ _)
      · obtain ⟨fronts, lasts⟩ := List.append_inj' same rfl
        have high := inductionHypothesis (code / 16) (by omega) fronts
        have low := digitChar_injective _ (Nat.mod_lt code (by decide)) _
          (Nat.mod_lt code' (by decide)) (List.singleton_inj.1 lasts)
        omega

/-- The letters of the short escapes. -/
def shortEscapes : List (Char × Char) :=
  [('t', '\t'), ('r', '\r'), ('n', '\n'), ('0', '\x00'), ('"', '"'), ('\\', '\\')]

theorem shortEscapes_functional : ∀ entry ∈ shortEscapes, ∀ entry' ∈ shortEscapes,
    entry.1 = entry'.1 → entry.2 = entry'.2 := by
  decide

/-- An escape is short, or the character itself, or its code in braces. -/
theorem escape_cases (char : Char) :
    (∃ letter, (letter, char) ∈ shortEscapes ∧ escape char = ['\\', letter]) ∨
      (char ≠ '\\' ∧ char ≠ '\n' ∧ escape char = [char]) ∨
      escape char = ['\\', 'u', '\x7b'] ++ hexDigits char.toNat ++ ['\x7d'] := by
  unfold escape
  split
  case h_7 _ _ feed _ _ backslash =>
      refine .inr ?_
      split
      · exact .inl ⟨backslash, feed, rfl⟩
      · exact .inr rfl
  all_goals exact .inl ⟨_, by decide, rfl⟩

/-- No hexadecimal digit ends an escape or a line. -/
theorem ne_of_mem_hexDigits {code : Nat} (member : char ∈ hexDigits code) :
    char ≠ '\n' ∧ char ≠ '\x7d' := by
  obtain ⟨digit, small, rfl⟩ := mem_hexDigits member
  have free : ∀ digit < 16, Nat.digitChar digit ≠ '\n' ∧ Nat.digitChar digit ≠ '\x7d' := by decide
  exact free digit small

/-- The letter of a short escape belongs to one character, and is not that of a code. -/
theorem shortEscapes_letter {letter : Char} (listed : (letter, char) ∈ shortEscapes) :
    letter ≠ 'u' ∧ letter ≠ '\n' := by
  have free : ∀ entry ∈ shortEscapes, entry.1 ≠ 'u' ∧ entry.1 ≠ '\n' := by decide
  exact free _ listed

/-- An escape and what follows it can be told from the whole. -/
theorem escape_append_inj (same : escape char ++ rest = escape char' ++ rest') :
    char = char' ∧ rest = rest' := by
  rcases escape_cases char with ⟨letter, listed, short⟩ | ⟨plain, -, alone⟩ | coded <;>
    rcases escape_cases char' with ⟨letter', listed', short'⟩ | ⟨plain', -, alone'⟩ | coded'
  · rw [short, short'] at same
    simp only [List.cons_append, List.nil_append, List.cons.injEq, true_and] at same
    obtain ⟨rfl, behind⟩ := same
    exact ⟨shortEscapes_functional _ listed _ listed' rfl, behind⟩
  · rw [short, alone'] at same
    exact absurd (List.cons.inj same).1.symm plain'
  · rw [short, coded'] at same
    simp only [List.cons_append, List.nil_append, List.cons.injEq, true_and] at same
    exact absurd same.1 (shortEscapes_letter listed).1
  · rw [alone, short'] at same
    exact absurd (List.cons.inj same).1 plain
  · rw [alone, alone'] at same
    exact List.cons.inj same
  · rw [alone, coded'] at same
    exact absurd (List.cons.inj same).1 plain
  · rw [coded, short'] at same
    simp only [List.cons_append, List.nil_append, List.cons.injEq, true_and] at same
    exact absurd same.1.symm (shortEscapes_letter listed').1
  · rw [coded, alone'] at same
    exact absurd (List.cons.inj same).1.symm plain'
  · rw [coded, coded'] at same
    simp only [List.cons_append, List.nil_append, List.append_assoc, List.cons.injEq,
      true_and] at same
    have free : ∀ code, '\x7d' ∉ hexDigits code :=
      fun _ member => (ne_of_mem_hexDigits member).2 rfl
    obtain ⟨codes, behind⟩ := append_mark_inj (free _) (free _) same
    exact ⟨Char.toNat_inj.1 (hexDigits_injective codes), behind⟩

/-- Every character is written somehow. -/
theorem escape_ne_nil (char : Char) : escape char ≠ [] := by
  rcases escape_cases char with ⟨letter, -, short⟩ | ⟨-, -, alone⟩ | coded <;> simp [*]

/-- By induction, a text can be read off its escaped form. -/
theorem escapeAll_injective (same : escapeAll first = escapeAll second) : first = second := by
  induction first generalizing second with
  | nil =>
      cases second with
      | nil => rfl
      | cons char others => simp [escapeAll, escape_ne_nil] at same
  | cons char others inductionHypothesis =>
      cases second with
      | nil => simp [escapeAll, escape_ne_nil] at same
      | cons char' others' =>
          obtain ⟨rfl, behind⟩ := escape_append_inj same
          rw [inductionHypothesis behind]

/-- A text can be read off its quoted form. -/
theorem quote_injective {text text' : String} (same : quote text = quote text') : text = text' := by
  have chars := String.ofList_injective same
  have contents := List.append_cancel_right (List.cons.inj chars).2
  exact String.toList_inj.1 (escapeAll_injective contents)

/-- A quoted text is one line. -/
theorem noFeed_quote (text : String) : '\n' ∉ (quote text).toList := by
  have escaped : ∀ char, '\n' ∉ escape char := by
    intro char
    rcases escape_cases char with ⟨letter, listed, short⟩ | ⟨-, plain, alone⟩ | coded
    · simp [short, (shortEscapes_letter listed).2.symm]
    · simpa [alone] using plain.symm
    · have free : '\n' ∉ hexDigits char.toNat := fun member => (ne_of_mem_hexDigits member).1 rfl
      simp [coded, free]
  simp [quote, escapeAll, escaped]

end FrontEnd.Text
