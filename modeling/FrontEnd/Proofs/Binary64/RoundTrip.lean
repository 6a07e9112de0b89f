/-
This file reads printed numbers back. The digits that are printed for a double are the digits of a
decimal that was checked to give it, or of its exact value.
-/

import FrontEnd.Binary64.Printer
import FrontEnd.Binary64.Reader
import FrontEnd.Proofs.Token.Spelling
import Mathlib

namespace FrontEnd

namespace Binary64

/-- The parts that finite doubles have: a mantissa of at most 53 bits, which has all of them unless
the exponent is the least one. -/
structure Normal (mantissa exponent : Nat) : Prop where
  narrow : mantissa < 2 ^ 53
  bounded : exponent ≤ 2045
  full : exponent = 0 ∨ 2 ^ 52 ≤ mantissa

/-- Rounding a fraction is the same when it is expanded. -/
theorem roundToEven_mul (numerator denominator : Nat) {scale : Nat} (positive : 0 < scale) :
    roundToEven (numerator * scale) (denominator * scale) = roundToEven numerator denominator := by
  unfold roundToEven
  rw [Nat.mul_div_mul_right _ _ positive, Nat.mul_mod_mul_right, ← Nat.mul_assoc]
  simp only [Nat.mul_lt_mul_right positive]

/-- Rounding gives one of the two integers around a fraction. -/
theorem roundToEven_bounds (numerator denominator : Nat) :
    numerator / denominator ≤ roundToEven numerator denominator ∧
      roundToEven numerator denominator ≤ numerator / denominator + 1 := by
  unfold roundToEven
  simp only
  split
  · omega
  · split <;> omega

/-- Whole numbers are not rounded. -/
theorem roundToEven_exact (value : Nat) {denominator : Nat} (positive : 0 < denominator) :
    roundToEven (value * denominator) denominator = value := by
  unfold roundToEven
  simp [Nat.mul_div_cancel _ positive, positive]

theorem nearest_eq (negative : Bool) (numerator denominator : Nat) :
    nearest negative numerator denominator =
      normalize negative (roundToEven (numerator * 2 ^ 1074)
          (denominator * 2 ^ ((numerator * 2 ^ 1074 / denominator).log2 - 52)))
        ((numerator * 2 ^ 1074 / denominator).log2 - 52) := rfl

/-- The nearest double of a fraction is the same when it is expanded. -/
theorem nearest_mul (negative : Bool) (numerator denominator : Nat) {scale : Nat}
    (positive : 0 < scale) :
    nearest negative (numerator * scale) (denominator * scale) =
      nearest negative numerator denominator := by
  rw [nearest_eq, nearest_eq, Nat.mul_right_comm numerator, Nat.mul_div_mul_right _ _ positive,
    Nat.mul_right_comm denominator, roundToEven_mul _ _ positive]

/-- The integer part of a magnitude on the grid of its exponent has 53 bits, or fewer on the finest
grid. -/
theorem gridQuotient_bounds (quotient : Nat) :
    quotient / 2 ^ (quotient.log2 - 52) < 2 ^ 53 ∧
      (quotient.log2 - 52 = 0 ∨ 2 ^ 52 ≤ quotient / 2 ^ (quotient.log2 - 52)) := by
  have positive : 0 < 2 ^ (quotient.log2 - 52) := Nat.two_pow_pos _
  have above : quotient < 2 ^ (quotient.log2 + 1) := Nat.lt_log2_self
  rcases Nat.lt_or_ge 52 quotient.log2 with wide | narrow
  · have below : 2 ^ quotient.log2 ≤ quotient := Nat.log2_self_le (by rintro rfl; simp at wide)
    have split : quotient.log2 = 52 + (quotient.log2 - 52) := by omega
    constructor
    · rw [Nat.div_lt_iff_lt_mul positive, ← Nat.pow_add]
      exact lt_of_lt_of_eq above (by congr 1; omega)
    · right
      rw [Nat.le_div_iff_mul_le positive, ← Nat.pow_add, ← split]
      exact below
  · have finest : quotient.log2 - 52 = 0 := by omega
    refine ⟨?_, .inl finest⟩
    rw [finest, Nat.pow_zero, Nat.div_one]
    exact above.trans_le (Nat.pow_le_pow_right (by decide) (by omega))

theorem normalize_normal {mantissa exponent : Nat} (narrow : mantissa ≤ 2 ^ 53)
    (full : exponent = 0 ∨ 2 ^ 52 ≤ mantissa) :
    normalize false mantissa exponent = .infinite false ∨
      ∃ mantissa' exponent', normalize false mantissa exponent =
        .finite false mantissa' exponent' ∧ Normal mantissa' exponent' := by
  unfold normalize
  by_cases carried : mantissa = 2 ^ 53
  · simp only [carried, if_true]
    split
    · exact .inl rfl
    · exact .inr ⟨_, _, rfl, by decide, by omega, .inr le_rfl⟩
  · simp only [carried, if_false]
    split
    · exact .inl rfl
    · exact .inr ⟨_, _, rfl, by omega, by omega, full⟩

/-- Rounding on the grid of a magnitude gives the parts of a double, or passes all of them. -/
theorem nearest_normal (numerator denominator : Nat) :
    nearest false numerator denominator = .infinite false ∨
      ∃ mantissa exponent, nearest false numerator denominator =
        .finite false mantissa exponent ∧ Normal mantissa exponent := by
  let scaled := numerator * 2 ^ 1074
  let grid := (scaled / denominator).log2 - 52
  obtain ⟨narrow, full⟩ := gridQuotient_bounds (scaled / denominator)
  rw [Nat.div_div_eq_div_mul] at narrow full
  obtain ⟨low, high⟩ := roundToEven_bounds scaled (denominator * 2 ^ grid)
  have few : roundToEven scaled (denominator * 2 ^ grid) ≤ 2 ^ 53 :=
    high.trans (Nat.succ_le_of_lt narrow)
  exact normalize_normal few (full.imp_right fun wide => wide.trans low)

theorem ofDecimal_normal (digits : Nat) (exponent : Int) :
    ofDecimal false digits exponent = .infinite false ∨
      ∃ mantissa exponent', ofDecimal false digits exponent =
        .finite false mantissa exponent' ∧ Normal mantissa exponent' := by
  have zeroNormal : Normal 0 0 := ⟨by decide, by decide, .inl rfl⟩
  cases exponent with
  | ofNat power =>
      simp only [ofDecimal]
      split
      · exact .inr ⟨0, 0, rfl, zeroNormal⟩
      · split
        · exact .inl rfl
        · exact nearest_normal _ _
  | negSucc power =>
      simp only [ofDecimal]
      split
      · exact .inr ⟨0, 0, rfl, zeroNormal⟩
      · exact nearest_normal _ _

/-- The exact value of a double is nearest to it. -/
theorem nearest_exact {mantissa exponent : Nat} (normal : Normal mantissa exponent) {scale : Nat}
    (positive : 0 < scale) :
    nearest false (mantissa * 2 ^ exponent * scale) (2 ^ 1074 * scale) =
      .finite false mantissa exponent := by
  rw [nearest_mul _ _ _ positive]
  have quotient : mantissa * 2 ^ exponent * 2 ^ 1074 / 2 ^ 1074 = mantissa * 2 ^ exponent :=
    Nat.mul_div_cancel _ (Nat.two_pow_pos 1074)
  have grid : (mantissa * 2 ^ exponent).log2 - 52 = exponent := by
    obtain ⟨narrow, -, finest | wide⟩ := normal
    · subst finest
      rw [Nat.pow_zero, Nat.mul_one]
      rcases Nat.eq_zero_or_pos mantissa with rfl | some
      · rfl
      · have low := (Nat.log2_lt (by omega)).2 narrow
        omega
    · have bits : (mantissa * 2 ^ exponent).log2 = 52 + exponent := by
        refine (Nat.log2_eq_iff ?_).2 ⟨?_, ?_⟩
        · exact Nat.mul_ne_zero (by omega) (Nat.two_pow_pos _).ne'
        · rw [Nat.pow_add]
          exact Nat.mul_le_mul_right _ wide
        · rw [show 52 + exponent + 1 = 53 + exponent by omega, Nat.pow_add]
          exact Nat.mul_lt_mul_of_pos_right narrow (Nat.two_pow_pos _)
      omega
  have rounded : roundToEven (mantissa * 2 ^ exponent * 2 ^ 1074) (2 ^ 1074 * 2 ^ exponent) =
      mantissa := by
    rw [Nat.mul_assoc, Nat.mul_comm (2 ^ exponent)]
    exact roundToEven_exact mantissa (Nat.mul_pos (Nat.two_pow_pos _) (Nat.two_pow_pos _))
  have kept : normalize false mantissa exponent = .finite false mantissa exponent := by
    unfold normalize
    rw [if_neg normal.narrow.ne]
    exact if_neg normal.bounded.not_gt
  rw [nearest_eq, quotient, grid, rounded, kept]

/-- The nearest double of zero is zero. -/
theorem nearest_zero {denominator : Nat} (positive : 0 < denominator) :
    nearest false 0 denominator = zero false := by
  have rounded := roundToEven_exact 0 (Nat.mul_pos positive (Nat.two_pow_pos 0))
  rw [Nat.zero_mul] at rounded
  rw [nearest_eq, Nat.zero_mul, Nat.zero_div, Nat.log2_zero, Nat.zero_sub, rounded]
  rfl

/-- Decimals that are too small for any double but zero are rounded to zero. -/
theorem nearest_of_tiny {digits power : Nat} (tiny : digits.log2 + 1077 ≤ 3 * power) :
    nearest false digits (10 ^ power) = zero false := by
  have small : 4 * (digits * 2 ^ 1074) < 10 ^ power := by
    have few : digits < 2 ^ (digits.log2 + 1) := Nat.lt_log2_self
    calc 4 * (digits * 2 ^ 1074) = digits * (2 ^ 1074 * 4) := by
          rw [Nat.mul_comm 4, Nat.mul_assoc]
      _ = digits * 2 ^ 1076 := by rw [show 4 = 2 ^ 2 by rfl, ← Nat.pow_add]
      _ < 2 ^ (digits.log2 + 1) * 2 ^ 1076 :=
          Nat.mul_lt_mul_of_pos_right few (Nat.two_pow_pos _)
      _ = 2 ^ (digits.log2 + 1077) := by rw [← Nat.pow_add]
      _ ≤ 2 ^ (3 * power) := Nat.pow_le_pow_right (by decide) tiny
      _ = 8 ^ power := by rw [Nat.pow_mul]
      _ ≤ 10 ^ power := Nat.pow_le_pow_left (by decide) power
  have none : digits * 2 ^ 1074 / 10 ^ power = 0 := Nat.div_eq_of_lt (by omega)
  have rounded : roundToEven (digits * 2 ^ 1074) (10 ^ power * 2 ^ 0) = 0 := by
    rw [Nat.pow_zero, Nat.mul_one, roundToEven, Nat.mod_eq_of_lt (by omega), none]
    exact if_pos (by omega)
  rw [nearest_eq, none, Nat.log2_zero, Nat.zero_sub, rounded]
  rfl

theorem zero_ne_finite {mantissa exponent : Nat} (some : 0 < mantissa) :
    zero false ≠ .finite false mantissa exponent := by
  intro same
  cases same
  exact Nat.lt_irrefl 0 some

/-- A decimal that gives a double other than zero is rounded as a fraction. -/
theorem nearest_of_ofDecimal {digits power mantissa exponent : Nat} (some : 0 < mantissa)
    (given : ofDecimal false digits (.negSucc power) = .finite false mantissa exponent) :
    nearest false digits (10 ^ (power + 1)) = .finite false mantissa exponent := by
  rw [ofDecimal] at given
  split at given
  · exact absurd given (zero_ne_finite some)
  · exact given

theorem nearest_of_ofDecimal_ofNat {digits power mantissa exponent : Nat} (some : 0 < mantissa)
    (given : ofDecimal false digits (.ofNat power) = .finite false mantissa exponent) :
    nearest false (digits * 10 ^ power) (10 ^ 0) = .finite false mantissa exponent := by
  rw [ofDecimal] at given
  split at given
  · exact absurd given (zero_ne_finite some)
  · split at given
    · cases given
    · exact given

/-- A fraction over a power of ten that gives a double other than zero is read so as a decimal. -/
theorem ofDecimal_of_nearest {digits places mantissa exponent : Nat} (some : 0 < mantissa)
    (given : nearest false digits (10 ^ places) = .finite false mantissa exponent) :
    ofDecimal false digits (-(places : Int)) = .finite false mantissa exponent := by
  have notZero : nearest false digits (10 ^ places) ≠ zero false := by
    rw [given]
    exact (zero_ne_finite some).symm
  cases places with
  | zero =>
      have digitsSome : digits ≠ 0 := by
        rintro rfl
        exact notZero (nearest_zero (Nat.pow_pos (by decide)))
      show ofDecimal false digits (.ofNat 0) = _
      rw [ofDecimal, if_neg digitsSome, if_neg (by decide), Nat.pow_zero, Nat.mul_one]
      exact given
  | succ power =>
      show ofDecimal false digits (.negSucc power) = _
      rw [ofDecimal, if_neg fun tiny => notZero (nearest_of_tiny tiny)]
      exact given

/-- Trailing zeros of the digits can be moved to the exponent. -/
theorem ofDecimal_shift {digits shift places mantissa exponent : Nat} (some : 0 < mantissa)
    (given : nearest false (digits * 10 ^ shift) (10 ^ (places + shift)) =
      .finite false mantissa exponent) :
    ofDecimal false digits (-(places : Int)) = .finite false mantissa exponent := by
  apply ofDecimal_of_nearest some
  rw [Nat.pow_add, nearest_mul _ _ _ (Nat.pow_pos (by decide))] at given
  exact given

end Binary64

namespace Decimal

/-- The exact value of a double spells it. -/
theorem exact_spells {mantissa exponent : Nat} (normal : Binary64.Normal mantissa exponent)
    (some : 0 < mantissa) : (exact mantissa exponent).spells mantissa exponent := by
  have ten : 10 ^ 1074 = 2 ^ 1074 * 5 ^ 1074 := by rw [← Nat.mul_pow]
  have near : Binary64.nearest false (mantissa * 2 ^ exponent * 5 ^ 1074) (10 ^ 1074) =
      .finite false mantissa exponent := by
    rw [ten]
    exact Binary64.nearest_exact normal (Nat.pow_pos (by decide))
  exact decide_eq_true (Binary64.ofDecimal_of_nearest some near)

/-- A decimal that is found on a grid spells the double. -/
theorem onGrid?_spells {mantissa exponent : Nat} {place : Int} {decimal : Decimal}
    (found : onGrid? mantissa exponent place = .some decimal) :
    decimal.spells mantissa exponent := by
  have picked : ∀ first second : Decimal, (if first.spells mantissa exponent then .some first
      else if second.spells mantissa exponent then .some second else none) = Option.some decimal →
      decimal.spells mantissa exponent := by
    intro first second pick
    split at pick
    · rename_i spells
      cases pick
      exact spells
    · obtain ⟨spells, same⟩ := Option.ite_none_right_eq_some.1 pick
      cases same
      exact spells
  unfold onGrid? at found
  generalize gridBelow mantissa exponent place = grid at found
  obtain ⟨below, upper⟩ := grid
  cases upper
  · exact picked _ _ found
  · exact picked _ _ found

/-- By induction on the attempts, the decimal that is found spells the double. -/
theorem search_spells {mantissa exponent : Nat} (normal : Binary64.Normal mantissa exponent)
    (some : 0 < mantissa) (attempts : Nat) (place : Int) :
    (search mantissa exponent attempts place).spells mantissa exponent := by
  induction attempts generalizing place with
  | zero => exact exact_spells normal some
  | succ attempts inductionHypothesis =>
      rw [search]
      split
      · rename_i decimal found
        exact onGrid?_spells found
      · exact inductionHypothesis (place - 1)

/-- The shortest decimal of a double gives it back. -/
theorem shortest_spells {mantissa exponent : Nat} (normal : Binary64.Normal mantissa exponent)
    (some : 0 < mantissa) : (shortest mantissa exponent).spells mantissa exponent :=
  search_spells normal some 17 _

end Decimal

/-- The text of digits with a fraction, which is left out when it has no digits. -/
def withFraction (whole fraction : List Char) : List Char :=
  if fraction = [] then whole else whole ++ '.' :: fraction

theorem digitsValue_eq (digits : List Char) : digitsValue digits = Nat.ofDigitChars 10 digits 0 :=
  rfl

/-- The value of digits grows tenfold with each digit behind them. -/
theorem digitsValue_append (first second : List Char) :
    digitsValue (first ++ second) =
      digitsValue first * 10 ^ second.length + digitsValue second := by
  rw [digitsValue_eq, Nat.ofDigitChars_append, Nat.ofDigitChars_eq_ofDigitChars_zero,
    ← digitsValue_eq, ← digitsValue_eq, Nat.mul_comm]

theorem digitsValue_replicate_zero (count : Nat) : digitsValue (List.replicate count '0') = 0 := by
  rw [digitsValue_eq, Nat.ofDigitChars_replicate_zero, Nat.mul_zero]

theorem digitsValue_toDigits (value : Nat) : digitsValue (Nat.toDigits 10 value) = value :=
  Nat.ofDigitChars_ten_toDigits

theorem isDigits_toDigits (value : Nat) : IsDigits (Nat.toDigits 10 value) :=
  ⟨Nat.toDigits_ne_nil, fun _ => Nat.isDigit_of_mem_toDigits (by decide) (by decide)⟩

/-- The digits before and after the point are found again. -/
theorem withFraction_split {whole fraction : List Char} (digits : ∀ char ∈ whole, char.isDigit)
    (more : ∀ char ∈ fraction, char.isDigit) :
    (withFraction whole fraction).takeWhile Char.isDigit = whole ∧
      readFraction ((withFraction whole fraction).dropWhile Char.isDigit) = (fraction, []) := by
  unfold withFraction
  split
  · rename_i none
    rw [none, List.takeWhile_eq_self_iff.2 digits, List.dropWhile_eq_nil_iff.2 digits]
    exact ⟨rfl, rfl⟩
  · rw [List.takeWhile_append_of_pos digits, List.dropWhile_append_of_pos digits]
    have point : Char.isDigit '.' = false := by decide
    rw [List.takeWhile_cons_of_neg (by simp [point]), List.dropWhile_cons_of_neg (by simp [point]),
      List.append_nil, readFraction, List.takeWhile_eq_self_iff.2 more,
      List.dropWhile_eq_nil_iff.2 more]
    exact ⟨rfl, rfl⟩

/-- A number with a fraction begins with a digit. -/
theorem withFraction_eq_cons {whole : List Char} (digits : IsDigits whole)
    (fraction : List Char) :
    ∃ first rest, withFraction whole fraction = first :: rest ∧ first.isDigit := by
  obtain ⟨some, all⟩ := digits
  cases whole with
  | nil => exact absurd rfl some
  | cons first rest =>
      unfold withFraction
      split
      · exact ⟨first, rest, rfl, all first List.mem_cons_self⟩
      · exact ⟨first, _, rfl, all first List.mem_cons_self⟩

/-- A digit is neither a sign nor a letter. -/
theorem readSign_digit {first : Char} (digit : first.isDigit) (rest : List Char) :
    readSign (first :: rest) = (false, first :: rest) := by
  unfold readSign
  split
  · rename_i same
    cases same
    cases digit
  · rename_i same
    cases same
    cases digit
  · rfl

theorem toLower_digit {char : Char} (digit : char.isDigit) : char.toLower = char := by
  have low : char.toNat ≤ 57 := (Char.isDigit_iff_toNat.1 digit).2
  rw [Char.toLower]
  exact dif_neg fun upper => by
    have high : 65 ≤ char.toNat := upper.1
    omega

/-- The text of a number is read as the decimal of its digits. -/
theorem Binary64.read?_withFraction {whole fraction : List Char} (digits : IsDigits whole)
    (more : ∀ char ∈ fraction, char.isDigit) :
    read? (String.ofList (withFraction whole fraction)) =
      some (ofDecimal false (digitsValue (whole ++ fraction)) (-(fraction.length : Int))) := by
  obtain ⟨first, rest, starts, digit⟩ := withFraction_eq_cons digits fraction
  have sign : readSign (withFraction whole fraction) = (false, withFraction whole fraction) := by
    rw [starts]
    exact readSign_digit digit rest
  have unnamed : ∀ letter name, letter.isDigit = false →
      String.ofList ((withFraction whole fraction).map Char.toLower) ≠
        String.ofList (letter :: name) := by
    intro letter name isLetter same
    rw [String.ofList_inj, starts, List.map_cons, toLower_digit digit] at same
    injection same with same
    rw [same, isLetter] at digit
    cases digit
  obtain ⟨before, after⟩ := withFraction_split digits.2 more
  unfold read?
  rw [String.toList_ofList, sign]
  simp only
  rw [if_neg (unnamed 'n' ['a', 'n'] (by decide)),
    if_neg (not_or.2 ⟨unnamed 'i' ['n', 'f'] (by decide),
      unnamed 'i' ['n', 'f', 'i', 'n', 'i', 't', 'y'] (by decide)⟩),
    readDecimal?, before, after]
  simp only
  rw [if_neg fun none => digits.1 none.1]
  simp [readExponent?]

/-- The zeros at the end of a fraction are cut off. -/
theorem trailingZeros (fraction : List Char) :
    ∃ shift, fraction = (fraction.reverse.dropWhile (· = '0')).reverse ++
      List.replicate shift '0' := by
  let zeros := fraction.reverse.takeWhile (· = '0')
  have allZero : zeros = List.replicate zeros.length '0' :=
    List.eq_replicate_of_mem fun char member => by simpa using List.mem_takeWhile_imp member
  refine ⟨zeros.length, ?_⟩
  rw [← List.reverse_inj, List.reverse_append, List.reverse_replicate, ← allZero,
    List.reverse_reverse]
  exact List.takeWhile_append_dropWhile.symm

/-- The digits of a fraction, with zeros before them up to the number of its places. -/
theorem paddedDigits {value places : Nat} (small : value < 10 ^ places) (some : 0 < places) :
    let padded := List.replicate (places - (Nat.toDigits 10 value).length) '0' ++
      Nat.toDigits 10 value
    padded.length = places ∧ digitsValue padded = value ∧ ∀ char ∈ padded, char.isDigit := by
  intro padded
  have short : (Nat.toDigits 10 value).length ≤ places :=
    (Nat.length_toDigits_le_iff (by decide) some).2 small
  refine ⟨?_, ?_, ?_⟩
  · rw [List.length_append, List.length_replicate, Nat.sub_add_cancel short]
  · rw [digitsValue_append, digitsValue_replicate_zero, digitsValue_toDigits, Nat.zero_mul,
      Nat.zero_add]
  · refine List.forall_mem_append.2 ⟨fun char member => ?_, (isDigits_toDigits value).2⟩
    rw [List.eq_of_mem_replicate member]
    rfl

/-- The text of a decimal is the text of a number that is read as what the decimal spells. -/
theorem Decimal.positional_spec {decimal : Decimal} {mantissa exponent : Nat}
    (some : 0 < mantissa) (spells : decimal.spells mantissa exponent) :
    ∃ whole fraction, decimal.positional = withFraction whole fraction ∧ IsDigits whole ∧
      (∀ char ∈ fraction, char.isDigit) ∧
      Binary64.ofDecimal false (digitsValue (whole ++ fraction)) (-(fraction.length : Int)) =
        .finite false mantissa exponent := by
  obtain ⟨digits, place⟩ := decimal
  have given := of_decide_eq_true spells
  cases place with
  | ofNat power =>
      refine ⟨Nat.toDigits 10 (digits * 10 ^ power), [], rfl, isDigits_toDigits _, by simp, ?_⟩
      have near := Binary64.nearest_of_ofDecimal_ofNat some given
      have read := Binary64.ofDecimal_of_nearest some near
      rw [List.append_nil, digitsValue_toDigits]
      exact read
  | negSucc power =>
      let full := List.replicate
        (power + 1 - (Nat.toDigits 10 (digits % 10 ^ (power + 1))).length) '0' ++
          Nat.toDigits 10 (digits % 10 ^ (power + 1))
      let fraction := (full.reverse.dropWhile (· = '0')).reverse
      have small : digits % 10 ^ (power + 1) < 10 ^ (power + 1) :=
        Nat.mod_lt _ (Nat.pow_pos (by decide))
      obtain ⟨length, value, all⟩ := paddedDigits small (Nat.succ_pos power)
      obtain ⟨shift, cut⟩ := trailingZeros full
      have whole := isDigits_toDigits (digits / 10 ^ (power + 1))
      refine ⟨_, fraction, rfl, whole, fun char member => ?_, ?_⟩
      · apply all char
        show char ∈ full
        rw [cut]
        exact List.mem_append_left _ member
      · have near := Binary64.nearest_of_ofDecimal some given
        have places : power + 1 = fraction.length + shift := by
          rw [← length]
          show full.length = _
          rw [cut, List.length_append, List.length_replicate]
        have joined :
            digitsValue (Nat.toDigits 10 (digits / 10 ^ (power + 1)) ++ full) = digits := by
          rw [digitsValue_append, digitsValue_toDigits, value, length]
          exact Nat.div_add_mod' digits _
        rw [cut, ← List.append_assoc, digitsValue_append, digitsValue_replicate_zero,
          List.length_replicate, Nat.add_zero] at joined
        rw [places, ← joined] at near
        exact Binary64.ofDecimal_shift some near

/-- A number has digits, and maybe a fraction of more digits. -/
theorem isNumeral_iff {chars : List Char} :
    IsNumeral chars ↔ ∃ whole fraction, chars = withFraction whole fraction ∧ IsDigits whole ∧
      ∀ char ∈ fraction, char.isDigit := by
  unfold withFraction
  constructor
  · rintro (digits | ⟨whole, fraction, rfl, digits, some, more⟩)
    · exact ⟨chars, [], rfl, digits, by simp⟩
    · exact ⟨whole, fraction, (if_neg some).symm, digits, more⟩
  · rintro ⟨whole, fraction, rfl, digits, more⟩
    split
    · exact .inl digits
    · rename_i some
      exact .inr ⟨whole, fraction, rfl, digits, some, more⟩

namespace Binary64

/-- A finite double without a sign is printed as a number that gives it back. -/
theorem Normal.print_isNumeral {mantissa exponent : Nat} (normal : Normal mantissa exponent) :
    IsNumeral (finite false mantissa exponent).print.toList ∧
      read? (finite false mantissa exponent).print = .some (finite false mantissa exponent) := by
  rcases Nat.eq_zero_or_pos mantissa with rfl | some
  · obtain rfl : exponent = 0 := normal.full.resolve_right (by simp)
    exact ⟨.inl (by simp [print, IsDigits]), by rfl⟩
  · have spells := Decimal.shortest_spells normal some
    obtain ⟨whole, fraction, text, digits, more, value⟩ := Decimal.positional_spec some spells
    have printed : (finite false mantissa exponent).print =
        String.ofList (withFraction whole fraction) := by
      simp [print, some.ne', text]
    rw [printed, String.toList_ofList]
    exact ⟨isNumeral_iff.2 ⟨whole, fraction, rfl, digits, more⟩,
      by rw [read?_withFraction digits more, value]⟩

/-- Every number has a value. -/
theorem exists_read? {lexeme : String} (numeral : IsNumeral lexeme.toList) :
    ∃ value, read? lexeme = some value := by
  obtain ⟨whole, fraction, text, digits, more⟩ := isNumeral_iff.1 numeral
  obtain rfl : lexeme = String.ofList (withFraction whole fraction) := by
    rw [← text, String.ofList_toList]
  exact ⟨_, read?_withFraction digits more⟩

/-- The value of a number is too great for a double, or printed as a number that gives it back. -/
theorem print_isNumeral {lexeme : String} {value : Binary64} (numeral : IsNumeral lexeme.toList)
    (read : read? lexeme = some value) :
    value = .infinite false ∨ (IsNumeral value.print.toList ∧ read? value.print = some value) := by
  obtain ⟨whole, fraction, text, digits, more⟩ := isNumeral_iff.1 numeral
  obtain rfl : lexeme = String.ofList (withFraction whole fraction) := by
    rw [← text, String.ofList_toList]
  rw [read?_withFraction digits more] at read
  cases read
  rcases ofDecimal_normal (digitsValue (whole ++ fraction)) (-(fraction.length : Int)) with
    passed | ⟨mantissa, exponent, same, normal⟩
  · exact .inl passed
  · rw [same]
    exact .inr normal.print_isNumeral

end Binary64

end FrontEnd
