import Tripwire.Number.Shortest
import Tripwire.Proofs.Number.Reading

/-!
The search for the shortest digits ends with digits that read back: on the grid
of seventeen digits the nearer neighbour always does.
-/

namespace Tripwire.Decimal

open Binary64

section Counting

variable {n : Nat}

theorem pow_le_of_digitCount (positive : 0 < n) : 10 ^ (digitCount n - 1) ≤ n := by
  by_contra less
  have some : 1 ≤ digitCount n := Nat.length_toDigits_pos
  by_cases single : digitCount n = 1
  · rw [single] at less
    omega
  · have shorter := (Nat.length_toDigits_le_iff (by decide) (by omega)).mpr (not_le.mp less)
    unfold digitCount at some shorter
    omega

theorem lt_pow_digitCount (n : Nat) : n < 10 ^ digitCount n :=
  (Nat.length_toDigits_le_iff (by decide) Nat.length_toDigits_pos).mp (Nat.le_refl _)

end Counting

/-- A fraction is at least its leading power of ten. -/
theorem pow_leadingPower_le {n m : Nat} (positive : 0 < n) (divisor : 0 < m) :
    (10 : ℚ) ^ leadingPower n m ≤ (n : ℚ) / m := by
  have some : 0 < (m : ℚ) := by exact_mod_cast divisor
  rw [le_div_iff₀ some]
  unfold leadingPower
  split
  next large =>
    have quotient : 0 < n / m := Nat.div_pos large divisor
    have below : 10 ^ (digitCount (n / m) - 1) * m ≤ n := by
      calc 10 ^ (digitCount (n / m) - 1) * m ≤ n / m * m :=
            Nat.mul_le_mul_right m (pow_le_of_digitCount quotient)
        _ ≤ n := Nat.div_mul_le_self n m
    have count : 1 ≤ digitCount (n / m) := Nat.length_toDigits_pos
    rw [← Nat.cast_one (R := Int), ← Int.natCast_sub count, zpow_natCast]
    exact_mod_cast below
  next small =>
    have above : m ≤ n * 10 ^ digitCount ((m - 1) / n) := by
      have bound := lt_pow_digitCount ((m - 1) / n)
      rw [Nat.div_lt_iff_lt_mul positive, Nat.mul_comm] at bound
      omega
    rw [zpow_neg, zpow_natCast, inv_mul_le_iff₀ (by positivity), mul_comm]
    exact_mod_cast above

section Grid

variable {n m : Nat}

/-- The rounded-down quotient is within half a step when twice the remainder is no more. -/
theorem below_near (divisor : 0 < m) (nearer : 2 * (n % m) ≤ m) :
    |((n / m : Nat) : ℚ) - n / m| ≤ 1 / 2 := by
  have some : 0 < (m : ℚ) := by exact_mod_cast divisor
  have split : (m : ℚ) * (n / m : Nat) + (n % m : Nat) = n := by exact_mod_cast Nat.div_add_mod n m
  have bound : 2 * ((n % m : Nat) : ℚ) ≤ m := by exact_mod_cast nearer
  have natural : 0 ≤ ((n % m : Nat) : ℚ) := Nat.cast_nonneg _
  have gap : ((n / m : Nat) : ℚ) - n / m = -((n % m : Nat) / m) := by
    rw [← split]
    field_simp
    ring
  rw [gap, abs_neg, abs_of_nonneg (div_nonneg natural some.le), div_le_iff₀ some]
  linarith

/-- The rounded-up quotient is within half a step when twice the remainder is no less. -/
theorem above_near (divisor : 0 < m) (nearer : m ≤ 2 * (n % m)) :
    |((n / m + 1 : Nat) : ℚ) - n / m| ≤ 1 / 2 := by
  have some : 0 < (m : ℚ) := by exact_mod_cast divisor
  have split : (m : ℚ) * (n / m : Nat) + (n % m : Nat) = n := by exact_mod_cast Nat.div_add_mod n m
  have bound : (m : ℚ) ≤ 2 * (n % m : Nat) := by exact_mod_cast nearer
  have small : ((n % m : Nat) : ℚ) ≤ m := by exact_mod_cast (Nat.mod_lt n divisor).le
  have gap : ((n / m + 1 : Nat) : ℚ) - n / m = (m - (n % m : Nat)) / m := by
    rw [← split]
    push_cast
    field_simp
    ring
  rw [gap, abs_of_nonneg (div_nonneg (by linarith) some.le), div_le_iff₀ some]
  linarith

end Grid

theorem scaled_div (n m : Nat) (power : Int) :
    ((n * Nat.pow 10 (-power).toNat : Nat) : ℚ) / (m * Nat.pow 10 power.toNat : Nat) =
      n / m / 10 ^ power := by
  have ten : (10 : ℚ) ≠ 0 := by norm_num
  have parts : (10 : ℚ) ^ power = 10 ^ power.toNat / 10 ^ (-power).toNat := by
    rw [← zpow_natCast, ← zpow_natCast, ← zpow_sub₀ ten]
    congr 1
    omega
  rw [parts]
  push_cast [Nat.pow_eq]
  field_simp

variable {x : Float} {d : Binary64.Dyadic} {power : Int}

theorem readsBack_of_near {k : Nat} (finite : dyadic? x = some d) (positive : d.negative = false)
    (fine : (10 : ℚ) ^ power * 10 ^ 16 ≤ d.rational)
    (near : |(k : ℚ) - d.rational / 10 ^ power| ≤ 1 / 2) : readsBack x ⟨k, power⟩ = true := by
  have unit : 0 < (10 : ℚ) ^ power := zpow_pos (by norm_num) power
  have gap : |(k : ℚ) * 10 ^ power - d.rational| ≤ 10 ^ power / 2 := by
    have scaled : (k : ℚ) * 10 ^ power - d.rational =
        (k - d.rational / 10 ^ power) * 10 ^ power := by
      rw [sub_mul, div_mul_cancel₀ _ unit.ne']
    rw [scaled, abs_mul, abs_of_pos unit]
    have bound := mul_le_mul_of_nonneg_right near unit.le
    linarith
  have close : |(k : ℚ) * 10 ^ power - d.rational| * 2 ^ 54 < d.rational := by linarith
  unfold readsBack
  rw [toFloat_eq]
  exact decide_eq_true (nearest_of_parts finite positive close)

/-- On a grid that is fine enough a neighbour reads back. -/
theorem onGrid?_ne_none (tie : Tie) (finite : dyadic? x = some d) (positive : d.negative = false)
    (fine : (10 : ℚ) ^ power * 10 ^ 16 ≤ d.rational) :
    onGrid? tie x d.magnitude.1 d.magnitude.2 power ≠ none := by
  have divisor : 0 < d.magnitude.2 * Nat.pow 10 power.toNat :=
    Nat.mul_pos d.denominator_pos (Nat.pow_pos (by decide))
  have value := scaled_div d.magnitude.1 d.magnitude.2 power
  rw [d.magnitude_div] at value
  unfold onGrid?
  simp only [ne_eq, List.find?_eq_none, not_forall]
  cases order : compare (2 * (d.magnitude.1 * Nat.pow 10 (-power).toNat %
      (d.magnitude.2 * Nat.pow 10 power.toNat))) (d.magnitude.2 * Nat.pow 10 power.toNat) with
  | lt =>
    have near := below_near divisor (Nat.compare_eq_lt.mp order).le
    rw [value] at near
    exact ⟨_, List.mem_cons_self, by simpa using readsBack_of_near finite positive fine near⟩
  | gt =>
    have near := above_near divisor (Nat.compare_eq_gt.mp order).le
    rw [value] at near
    exact ⟨_, List.mem_cons_self, by simpa using readsBack_of_near finite positive fine near⟩
  | eq =>
    have near := above_near divisor (Nat.compare_eq_eq.mp order).ge
    rw [value] at near
    refine ⟨_, ?_, by simpa using readsBack_of_near finite positive fine near⟩
    dsimp only
    split
    · exact List.mem_cons_of_mem _ List.mem_cons_self
    · exact List.mem_cons_self

/-- The shortest digits of a positive finite double read back. -/
theorem shortest_reads (tie : Tie) (finite : dyadic? x = some d) (positive : d.negative = false)
    (some : 0 < d.mantissa) : (shortest tie x).toFloat = x := by
  obtain ⟨leading, same⟩ :
      ∃ leading, leadingPower d.magnitude.1 d.magnitude.2 = leading := ⟨_, rfl⟩
  have unfolded : shortest tie x = ((List.range 17).findSome? fun (count : Nat) =>
      onGrid? tie x d.magnitude.1 d.magnitude.2 (leading - count)).getD ⟨d.magnitude.1, 0⟩ := by
    rw [shortest, finite, ← same]
  have numerator : 0 < d.magnitude.1 := by
    unfold Dyadic.magnitude
    rw [Nat.shiftLeft_eq]
    exact Nat.mul_pos some (Nat.two_pow_pos _)
  have large : (10 : ℚ) ^ leading ≤ d.rational := by
    rw [← same, ← d.magnitude_div]
    exact pow_leadingPower_le numerator d.denominator_pos
  cases found : (List.range 17).findSome? fun (count : Nat) =>
      onGrid? tie x d.magnitude.1 d.magnitude.2 (leading - count) with
  | none =>
    have last := List.findSome?_eq_none_iff.mp found 16 (by decide)
    have fine : (10 : ℚ) ^ (leading - (16 : Nat)) * 10 ^ 16 ≤ d.rational := by
      rw [← zpow_natCast (10 : ℚ) 16, ← zpow_add₀ (by norm_num), sub_add_cancel]
      exact large
    exact absurd last (onGrid?_ne_none tie finite positive fine)
  | some decimal =>
    obtain ⟨count, _, reads⟩ := List.exists_of_findSome?_eq_some found
    rw [unfolded, found, Option.getD_some]
    exact of_decide_eq_true (readsBack_of_onGrid? reads)

end Tripwire.Decimal
