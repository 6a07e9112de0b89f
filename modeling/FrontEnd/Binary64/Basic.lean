/-
This file holds the double-precision numbers and the rounding of a fraction to the nearest one.
-/

namespace FrontEnd

-- Every power in this file is the core library's, also beside a library that brings its own.
attribute [local instance (high)] instPowNat

/-- A finite number is `mantissa * 2 ^ exponent / 2 ^ 1074` with its sign. -/
inductive Binary64 where
  | nan
  | infinite (negative : Bool)
  | finite (negative : Bool) (mantissa exponent : Nat)
  deriving DecidableEq, Repr

/-- A zero keeps its sign. -/
def Binary64.zero (negative : Bool) : Binary64 := .finite negative 0 0

/-- Numeric equality: no value equals `nan`, and the two zeros are equal. -/
def Binary64.equals : Binary64 → Binary64 → Bool
  | .nan, _ => false
  | _, .nan => false
  | .finite _ 0 _, .finite _ 0 _ => true
  | left, right => left = right

instance : BEq Binary64 := ⟨Binary64.equals⟩

/-- The integer nearest to a fraction, and the even one of two that are equally near. -/
def roundToEven (numerator denominator : Nat) : Nat :=
  let quotient := numerator / denominator
  let twice := 2 * (numerator % denominator)
  if twice < denominator then quotient
  else if denominator < twice then quotient + 1
  else quotient + quotient % 2

/-- A mantissa that rounding carried to `2 ^ 53` moves into the exponent, and a number past the
greatest finite one is infinite. -/
def Binary64.normalize (negative : Bool) (mantissa exponent : Nat) : Binary64 :=
  let (mantissa, exponent) :=
    if mantissa = 2 ^ (53 : Nat) then (2 ^ (52 : Nat), exponent + 1) else (mantissa, exponent)
  if 2045 < exponent then .infinite negative else .finite negative mantissa exponent

/-- The double nearest to a fraction. The least exponent whose mantissa has at most 53 bits
gives the finest grid around it. -/
def Binary64.nearest (negative : Bool) (numerator denominator : Nat) : Binary64 :=
  let scaled := numerator * 2 ^ (1074 : Nat)
  let exponent := (scaled / denominator).log2 - 52
  normalize negative (roundToEven scaled (denominator * 2 ^ exponent)) exponent

/-- The double nearest to `digits * 10 ^ exponent`. Exponents that leave no doubt about the
answer are answered without the power of ten. -/
def Binary64.ofDecimal (negative : Bool) (digits : Nat) : Int → Binary64
  | .ofNat power =>
      if digits = 0 then zero negative
      else if 309 ≤ power then .infinite negative
      else nearest negative (digits * 10 ^ power) 1
  | .negSucc power =>
      if digits.log2 + 1077 ≤ 3 * (power + 1) then zero negative
      else nearest negative digits (10 ^ (power + 1))

end FrontEnd
