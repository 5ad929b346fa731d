import Tripwire.Number.Decimal

/-!
The shortest decimal that reads back.  For one, two, … seventeen digits the two
neighbours of the exact value on that decimal grid are tried; the first grid
with a neighbour that reads back to the same float wins.
-/

namespace Tripwire

/-- Which of two equally near neighbours is written. -/
inductive Tie
  | up
  | even
  deriving DecidableEq

namespace Decimal

def digitCount (n : Nat) : Nat := (Nat.toDigits 10 n).length

/-- The power of ten of the leading digit of a positive fraction. -/
def leadingPower (numerator denominator : Nat) : Int :=
  if denominator ≤ numerator then digitCount (numerator / denominator) - 1
  else -digitCount ((denominator - 1) / numerator)

/-- Whether a decimal reads back as the float. -/
def readsBack (x : Float) (d : Decimal) : Bool := d.toFloat = x

/-- The better neighbour of a fraction on the grid of one power of ten, among
those that read back. -/
def onGrid? (tie : Tie) (x : Float) (numerator denominator : Nat) (power : Int) :
    Option Decimal :=
  let numerator := numerator * Nat.pow 10 (-power).toNat
  let denominator := denominator * Nat.pow 10 power.toNat
  let below := numerator / denominator
  let remainder := numerator % denominator
  let lower : Decimal := ⟨below, power⟩
  let upper : Decimal := ⟨below + 1, power⟩
  let ordered :=
    match compare (2 * remainder) denominator with
    | .lt => [lower, upper]
    | .gt => [upper, lower]
    | .eq => if tie = Tie.even ∧ below % 2 = 0 then [lower, upper] else [upper, lower]
  ordered.find? (readsBack x)

/-- The shortest decimal that reads back as a positive finite float. -/
def shortest (tie : Tie) (x : Float) : Decimal :=
  match Binary64.dyadic? x with
  | none => ⟨0, 0⟩
  | some d =>
    let (numerator, denominator) := d.magnitude
    let leading := leadingPower numerator denominator
    let grid (power : Int) := onGrid? tie x numerator denominator power
    ((List.range 17).findSome? fun (count : Nat) => grid (leading - count)).getD ⟨numerator, 0⟩

theorem readsBack_of_onGrid? {tie : Tie} {x : Float} {numerator denominator : Nat}
    {power : Int} {d : Decimal} (found : onGrid? tie x numerator denominator power = some d) :
    readsBack x d = true := by
  unfold onGrid? at found
  exact List.find?_some found

/-- Drops the zeros at the end of the digits. -/
def stripZeros : Nat → Decimal → Decimal
  | 0, d => d
  | fuel + 1, d =>
    if d.digits ≠ 0 ∧ d.digits % 10 = 0 then stripZeros fuel ⟨d.digits / 10, d.exponent + 1⟩ else d

/-- The same number without zeros at the end of the digits. -/
def normalize (d : Decimal) : Decimal := stripZeros (digitCount d.digits) d

end Decimal

end Tripwire
