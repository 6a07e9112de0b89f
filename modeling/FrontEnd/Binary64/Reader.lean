/-
This file reads the decimal text of a double.
-/

import FrontEnd.Binary64.Basic

namespace FrontEnd

/-- The number that a run of digits writes. -/
def digitsValue (digits : List Char) : Nat :=
  digits.foldl (fun value digit => 10 * value + (digit.toNat - '0'.toNat)) 0

/-- A sign is optional, and only a minus sign makes the number negative. -/
def readSign : List Char → Bool × List Char
  | '-' :: rest => (true, rest)
  | '+' :: rest => (false, rest)
  | chars => (false, chars)

/-- An exponent is absent, or `e` and a signed run of at least one digit up to the end. -/
def readExponent? : List Char → Option Int
  | [] => some 0
  | mark :: rest =>
      let (negative, digits) := readSign rest
      if (mark = 'e' ∨ mark = 'E') ∧ digits ≠ [] ∧ digits.all Char.isDigit then
        let value : Int := digitsValue digits
        some (if negative then -value else value)
      else
        none

/-- The digits after a point, and what follows them. -/
def readFraction : List Char → List Char × List Char
  | '.' :: rest => (rest.takeWhile Char.isDigit, rest.dropWhile Char.isDigit)
  | chars => ([], chars)

/-- An unsigned decimal has a digit before or after its point. -/
def readDecimal? (negative : Bool) (chars : List Char) : Option Binary64 :=
  let whole := chars.takeWhile Char.isDigit
  let (fraction, rest) := readFraction (chars.dropWhile Char.isDigit)
  if whole = [] ∧ fraction = [] then none
  else
    (readExponent? rest).map fun exponent =>
      .ofDecimal negative (digitsValue (whole ++ fraction)) (exponent - fraction.length)

/-- The text of a double is a signed decimal, or the name of an infinity or of no number in any
mix of cases. -/
def Binary64.read? (text : String) : Option Binary64 :=
  let (negative, chars) := readSign text.toList
  let name := String.ofList (chars.map Char.toLower)
  if name = "nan" then some .nan
  else if name = "inf" ∨ name = "infinity" then some (.infinite negative)
  else readDecimal? negative chars

end FrontEnd
