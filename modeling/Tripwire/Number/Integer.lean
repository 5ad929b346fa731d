/-!
Arithmetic of 64-bit signed integers that answers only when the exact result is
an integer in range.
-/

namespace Tripwire.Integer

def narrow? (n : Int) : Option Int64 :=
  if Int64.minValue.toInt ≤ n ∧ n ≤ Int64.maxValue.toInt then some (Int64.ofInt n) else none

def add? (a b : Int64) : Option Int64 := narrow? (a.toInt + b.toInt)

def subtract? (a b : Int64) : Option Int64 := narrow? (a.toInt - b.toInt)

def multiply? (a b : Int64) : Option Int64 := narrow? (a.toInt * b.toInt)

def negate? (a : Int64) : Option Int64 := narrow? (-a.toInt)

/-- The quotient rounded toward zero; none for division by zero and for the one overflow. -/
def quotient? (a b : Int64) : Option Int64 :=
  if b.toInt = 0 then none else narrow? (a.toInt.tdiv b.toInt)

/-- The remainder with the sign of the dividend, where the quotient exists. -/
def remainder? (a b : Int64) : Option Int64 :=
  (quotient? a b).bind fun _ => narrow? (a.toInt.tmod b.toInt)

/-- The quotient of a division without remainder. -/
def divide? (a b : Int64) : Option Int64 :=
  if remainder? a b = some 0 then quotient? a b else none

theorem toInt_of_narrow? {n : Int} {a : Int64} (fits : narrow? n = some a) : a.toInt = n := by
  unfold narrow? at fits
  split at fits
  next within =>
    rw [Int64.toInt_minValue, Int64.toInt_maxValue] at within
    cases fits
    rw [Int64.toInt_ofInt, Int.bmod_eq_of_le] <;> simp only [Int64.size] <;> omega
  next => cases fits

theorem narrow?_toInt (a : Int64) : narrow? a.toInt = some a := by
  have lower := Int64.le_toInt a
  have upper := Int64.toInt_lt a
  unfold narrow?
  rw [Int64.toInt_minValue, Int64.toInt_maxValue, if_pos ⟨lower, by omega⟩, Int64.ofInt_toInt]

/-- Narrowing answers exactly for the integers that are the value of a word. -/
theorem narrow?_eq_some_iff {n : Int} {a : Int64} : narrow? n = some a ↔ a.toInt = n := by
  constructor
  · exact toInt_of_narrow?
  · rintro rfl
    exact narrow?_toInt a

end Tripwire.Integer
