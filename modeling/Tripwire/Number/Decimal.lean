import Tripwire.Number.Binary64

/-!
Decimal notation of numbers: optional sign, digits with at most one point, and
an optional power of ten.  `readInteger?` and `readFloat?` accept a whole text
or nothing.
-/

namespace Tripwire

/-- The number `digits · 10 ^ exponent`. -/
structure Decimal where
  digits : Nat
  exponent : Int
  deriving DecidableEq

namespace Decimal

/-- The nearest float, to even on a tie, and infinity beyond the largest one. -/
def toFloat (d : Decimal) : Float :=
  Float.ofScientific d.digits (d.exponent < 0) d.exponent.natAbs

def value (digits : List Char) : Nat :=
  digits.foldl (fun total digit => 10 * total + (digit.toNat - 48)) 0

def digitRun (cs : List Char) : List Char × List Char :=
  (cs.takeWhile Char.isDigit, cs.dropWhile Char.isDigit)

/-- Splits off a sign; true stands for minus. -/
def signed : List Char → Bool × List Char
  | '-' :: rest => (true, rest)
  | '+' :: rest => (false, rest)
  | cs => (false, cs)

/-- An optional sign and at least one digit. -/
def readWhole? (cs : List Char) : Option Int :=
  let (negative, rest) := signed cs
  if rest.isEmpty || !rest.all Char.isDigit then none
  else some (if negative then -(value rest : Int) else value rest)

def readInteger? (cs : List Char) : Option Int64 :=
  (readWhole? cs).bind Integer.narrow?

/-- The power of ten after the digits. -/
def readExponent? : List Char → Option Int
  | [] => some 0
  | c :: rest => if c = 'e' ∨ c = 'E' then readWhole? rest else none

/-- Digits with at most one point and at least one digit, then a power of ten. -/
def readUnsigned? (cs : List Char) : Option Decimal :=
  let (whole, rest) := digitRun cs
  let (fraction, rest) :=
    match rest with
    | '.' :: rest => digitRun rest
    | rest => ([], rest)
  if whole.isEmpty && fraction.isEmpty then none
  else (readExponent? rest).map fun exponent =>
    ⟨value (whole ++ fraction), exponent - fraction.length⟩

def readFloat? (cs : List Char) : Option Float :=
  let (negative, rest) := signed cs
  (readUnsigned? rest).map fun d => if negative then -d.toFloat else d.toFloat

end Decimal

end Tripwire
