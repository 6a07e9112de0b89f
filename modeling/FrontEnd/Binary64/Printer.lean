/-
This file writes a double with the fewest digits that read back, always in positional form.
-/

import FrontEnd.Binary64.Basic

namespace FrontEnd

-- As for the rounding, every power in this file is the core library's.
attribute [local instance (high)] instPowNat

/-- A decimal is `digits * 10 ^ exponent`. -/
structure Decimal where
  digits : Nat
  exponent : Int
  deriving DecidableEq, Repr

/-- A decimal spells a magnitude when reading it gives that magnitude back. -/
def Decimal.spells (decimal : Decimal) (mantissa exponent : Nat) : Bool :=
  decide (Binary64.ofDecimal false decimal.digits decimal.exponent =
    .finite false mantissa exponent)

/-- The exact value of a magnitude as a decimal. -/
def Decimal.exact (mantissa exponent : Nat) : Decimal :=
  ⟨mantissa * 2 ^ exponent * 5 ^ (1074 : Nat), -1074⟩

/-- The number of digits of a number. -/
def decimalLength (value : Nat) : Nat := (Nat.toDigits 10 value).length

/-- The least power of ten above a magnitude. -/
def decimalPlace (mantissa exponent : Nat) : Int :=
  let numerator := mantissa * 2 ^ exponent
  let denominator := 2 ^ (1074 : Nat)
  if denominator ≤ numerator then decimalLength (numerator / denominator)
  else 1 - (decimalLength ((denominator - 1) / numerator) : Int)

/-- The multiple of a power of ten just below a magnitude, and whether the next one is at least as
near. -/
def gridBelow (mantissa exponent : Nat) (place : Int) : Nat × Bool :=
  let (numerator, denominator) := match place with
    | .ofNat power => (mantissa * 2 ^ exponent, 2 ^ (1074 : Nat) * 10 ^ power)
    | .negSucc power => (mantissa * 2 ^ exponent * 10 ^ (power + 1), 2 ^ (1074 : Nat))
  (numerator / denominator, denominator ≤ 2 * (numerator % denominator))

/-- One of the two neighbours of a magnitude on a decimal grid that spells it. The nearer one
wins, and the greater one of two that are equally near. -/
def Decimal.onGrid? (mantissa exponent : Nat) (place : Int) : Option Decimal :=
  let (below, upper) := gridBelow mantissa exponent place
  let low : Decimal := ⟨below, place⟩
  let high : Decimal := ⟨below + 1, place⟩
  let (first, second) := if upper then (high, low) else (low, high)
  if first.spells mantissa exponent then some first
  else if second.spells mantissa exponent then some second
  else none

/-- The grids are tried from the coarsest on. -/
def Decimal.search (mantissa exponent : Nat) : Nat → Int → Decimal
  | 0, _ => exact mantissa exponent
  | attempts + 1, place =>
      match onGrid? mantissa exponent place with
      | some decimal => decimal
      | none => search mantissa exponent attempts (place - 1)

/-- The shortest decimal that reads back as a magnitude. Seventeen digits are enough. -/
def Decimal.shortest (mantissa exponent : Nat) : Decimal :=
  search mantissa exponent 17 (decimalPlace mantissa exponent - 1)

/-- The point and the fraction are left out when only zeros follow. -/
def joinFraction (whole fraction : List Char) : List Char :=
  let significant := (fraction.reverse.dropWhile (· = '0')).reverse
  if significant = [] then whole else whole ++ '.' :: significant

/-- The positional form of a decimal. -/
def Decimal.positional (decimal : Decimal) : List Char :=
  match decimal.exponent with
  | .ofNat power => Nat.toDigits 10 (decimal.digits * 10 ^ power)
  | .negSucc power =>
      let places := power + 1
      let whole := Nat.toDigits 10 (decimal.digits / 10 ^ places)
      let fraction := Nat.toDigits 10 (decimal.digits % 10 ^ places)
      joinFraction whole (List.replicate (places - fraction.length) '0' ++ fraction)

/-- A number that is not finite is written by name. -/
def Binary64.print : Binary64 → String
  | .nan => "NaN"
  | .infinite negative => if negative then "-inf" else "inf"
  | .finite negative mantissa exponent =>
      let digits :=
        if mantissa = 0 then ['0'] else (Decimal.shortest mantissa exponent).positional
      String.ofList (if negative then '-' :: digits else digits)

end FrontEnd
