import Tripwire.Number.Integer

/-!
Exact views of double-precision numbers: a finite one is a whole mantissa times
a power of two, which decides whether it is an integer and what its remainder is.
-/

namespace Tripwire.Binary64

/-- A sign, a whole mantissa and a power of two. -/
structure Dyadic where
  negative : Bool
  mantissa : Nat
  exponent : Int
  deriving DecidableEq

namespace Dyadic

def sign (d : Dyadic) : Float.Model.UnpackedFloat.Sign :=
  if d.negative then .negative else .positive

/-- The nearest float, to even on a tie. -/
def toFloat (d : Dyadic) : Float :=
  .ofModel <| .pack <|
    if d.mantissa = 0 then .zero d.sign
    else .round .binary64 d.sign d.mantissa d.exponent

def magnitude (d : Dyadic) : Nat × Nat :=
  (d.mantissa <<< d.exponent.toNat, 1 <<< (-d.exponent).toNat)

/-- The value, if it is an integer. -/
def toInt? (d : Dyadic) : Option Int :=
  let (numerator, denominator) := d.magnitude
  if numerator % denominator = 0 then
    let whole : Int := (numerator / denominator : Nat)
    some (if d.negative then -whole else whole)
  else none

end Dyadic

/-- The exact parts of a finite number. -/
def dyadic? (x : Float) : Option Dyadic :=
  match x.toModel.unpack with
  | .zero sign => some ⟨sign == .negative, 0, 0⟩
  | .finite sign mantissa exponent _ => some ⟨sign == .negative, mantissa, exponent⟩
  | _ => none

/-- The value, if it is an integer. -/
def toInt? (x : Float) : Option Int := (dyadic? x).bind Dyadic.toInt?

def toInt64? (x : Float) : Option Int64 := (toInt? x).bind Integer.narrow?

def ofInt64 (n : Int64) : Float := Float.ofInt n.toInt

def nan : Float := .ofBits 0x7ff8000000000000

def infinity : Float := .ofBits 0x7ff0000000000000

/-- The numeric order, which places no number beside a NaN. -/
def compare? (a b : Float) : Option Ordering :=
  if a < b then some .lt
  else if a == b then some .eq
  else if b < a then some .gt
  else none

/-- The exact remainder with the sign of the dividend. -/
def remainder (a b : Float) : Float :=
  match dyadic? a with
  | none => nan
  | some dividend =>
    match dyadic? b with
    | none => if b.isNaN then nan else a
    | some divisor =>
      if divisor.mantissa = 0 then nan
      else
        let exponent := min dividend.exponent divisor.exponent
        let scaled (d : Dyadic) := d.mantissa <<< (d.exponent - exponent).toNat
        (Dyadic.mk dividend.negative (scaled dividend % scaled divisor) exponent).toFloat

end Tripwire.Binary64
