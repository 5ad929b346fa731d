import Tripwire.Json.Basic

/-!
The number that a JSON numeral denotes.  A numeral with a point, an exponent or
too many digits is a float: its leading digits that fit in 64 bits, scaled by a
power of ten in floating point.
-/

namespace Tripwire.Numeral

/-- Takes digits up while the number fits in 64 bits; returns the digits left over. -/
def leadingDigits (total : Nat) : List Char → Nat × List Char
  | [] => (total, [])
  | digit :: rest =>
    let next := 10 * total + (digit.toNat - 48)
    if next < UInt64.size then leadingDigits next rest else (total, digit :: rest)

def powerOfTen (power : Nat) : Float := Decimal.toFloat ⟨1, power⟩

/-- Scales by a power of ten, 308 places at a time; none if the result is too large. -/
def scale? (x : Float) (power : Int) : Option Float :=
  if power.natAbs ≤ 308 then
    if 0 ≤ power then
      let scaled := x * powerOfTen power.natAbs
      if scaled.isInf then none else some scaled
    else some (x / powerOfTen power.natAbs)
  else if x == 0 then some x
  else if 0 ≤ power then none
  else scale? (x / powerOfTen 308) (power + 308)
termination_by (-power).toNat
decreasing_by omega

/-- The leading digits as a number, and the power of ten that they are scaled by. -/
def scaled (numeral : Numeral) : Nat × Int :=
  let (whole, dropped) := leadingDigits 0 numeral.whole
  let fraction := numeral.fraction.getD []
  let (digits, unused) := leadingDigits whole fraction
  (digits, dropped.length - (fraction.length - unused.length : Nat) + numeral.exponent.getD 0)

/-- The numeral as a float; none if it is too large for one. -/
def toFloat? (numeral : Numeral) : Option Float :=
  let (digits, power) := numeral.scaled
  (scale? digits.toUInt64.toFloat power).map fun x => if numeral.negative then -x else x

/-- The numeral as an integer: no point, no exponent, and no sign before a zero. -/
def toInt? (numeral : Numeral) : Option Int :=
  if numeral.fraction.isSome || numeral.exponent.isSome then none
  else
    let magnitude := Decimal.value numeral.whole
    if numeral.negative then if magnitude = 0 then none else some (-magnitude)
    else some magnitude

/-- The numeral as a count that fits in 64 bits. -/
def toCount? (numeral : Numeral) : Option Nat :=
  numeral.toInt?.bind fun n => if 0 ≤ n ∧ n.toNat < UInt64.size then some n.toNat else none

end Tripwire.Numeral
