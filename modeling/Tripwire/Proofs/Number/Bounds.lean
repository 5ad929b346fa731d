import Tripwire.Proofs.Number.Value

/-!
How far rounding moves a fraction.

Rounding never crosses a fraction that has 53 binary digits (`near_le`,
`le_near`), keeps integers whole, and errs by at most half a unit of the last
place (`near_error`), which is small beside the fraction (`near_close`).
-/

namespace Tripwire.Binary64

section Natural

variable {q : ℚ} {n : Nat}

theorem roundEven_error (natural : 0 ≤ q) : |(roundEven q : ℚ) - q| ≤ 1 / 2 := by
  obtain ⟨halves, taken⟩ : ∃ halves, ⌊2 * q⌋₊ = halves := ⟨_, rfl⟩
  obtain ⟨lower, upper⟩ := (Nat.floor_eq_iff (by positivity)).mp taken
  rw [abs_le]
  rcases Nat.even_or_odd' halves with ⟨k, rfl | rfl⟩
  · have value : roundEven q = k := by
      simp only [roundEven, taken]
      grind
    rw [value]
    push_cast at lower upper
    constructor <;> linarith
  · push_cast at lower upper
    by_cases tie : 2 * q = (2 * k + 1 : Nat)
    · have value : roundEven q = k ∨ roundEven q = k + 1 := by
        simp only [roundEven, taken]
        grind
      push_cast at tie
      rcases value with value | value <;> rw [value] <;> push_cast <;> constructor <;> linarith
    · have value : roundEven q = k + 1 := by
        simp only [roundEven, taken]
        grind
      rw [value]
      push_cast
      constructor <;> linarith

/-- An even number is not missed from half a unit below. -/
theorem le_roundEven_of_even (even : n % 2 = 0) (half : (n : ℚ) ≤ q + 1 / 2) :
    n ≤ roundEven q := by
  by_cases positive : n = 0
  · omega
  have above : 2 * n - 1 ≤ ⌊2 * q⌋₊ := by
    apply Nat.le_floor
    rw [Nat.cast_sub (by omega)]
    push_cast
    linarith
  obtain ⟨halves, taken⟩ : ∃ halves, ⌊2 * q⌋₊ = halves := ⟨_, rfl⟩
  simp only [roundEven, taken]
  rw [taken] at above
  grind

end Natural

section Near

variable {q : ℚ} {k : Nat} {e : Int}

theorem near_nonneg (q : ℚ) : 0 ≤ near q :=
  mul_nonneg (Nat.cast_nonneg _) (zpow_pos two_pos _).le

theorem le_power_of_fine {t : Int} (fits : k ≤ 2 ^ 53) (fine : e < t) :
    (k : ℚ) * 2 ^ e ≤ 2 ^ (t + 52) := by
  have digits : (k : ℚ) ≤ 2 ^ (53 : Int) := by exact_mod_cast fits
  calc (k : ℚ) * 2 ^ e ≤ 2 ^ (53 : Int) * 2 ^ e :=
        mul_le_mul_of_nonneg_right digits (zpow_pos two_pos e).le
    _ = 2 ^ (53 + e) := (zpow_add₀ two_ne_zero _ _).symm
    _ ≤ 2 ^ (t + 52) := zpow_le_zpow_right₀ one_le_two (by omega)

/-- A fraction is not rounded below one of 53 binary digits. -/
theorem le_near (fits : k ≤ 2 ^ 53) (least : -1074 ≤ e) (below : (k : ℚ) * 2 ^ e ≤ q) :
    (k : ℚ) * 2 ^ e ≤ near q := by
  have unit : 0 < (2 : ℚ) ^ target q := zpow_pos two_pos _
  by_cases coarse : target q ≤ e
  · rw [scaled_eq k coarse] at below ⊢
    apply mul_le_mul_of_nonneg_right _ unit.le
    exact_mod_cast le_roundEven ((le_div_iff₀ unit).mpr below)
  · have fine := not_le.mp coarse
    rcases eq_or_ne k 0 with rfl | some
    · rw [Nat.cast_zero, zero_mul]
      exact near_nonneg q
    have positive : 0 < q := by
      have one : 0 < (k : ℚ) := by exact_mod_cast Nat.pos_of_ne_zero some
      exact (mul_pos one (zpow_pos two_pos e)).trans_le below
    have full : 2 ^ 52 ≤ roundEven (q / 2 ^ target q) := le_roundEven_target positive (by omega)
    calc (k : ℚ) * 2 ^ e ≤ 2 ^ (target q + 52) := le_power_of_fine fits fine
      _ = 2 ^ 52 * 2 ^ target q := by rw [add_comm, zpow_add₀ two_ne_zero, zpow_ofNat]
      _ ≤ near q := mul_le_mul_of_nonneg_right (by exact_mod_cast full) unit.le

/-- A fraction is not rounded above one of 53 binary digits. -/
theorem near_le (natural : 0 ≤ q) (fits : k ≤ 2 ^ 53) (least : -1074 ≤ e)
    (above : q ≤ (k : ℚ) * 2 ^ e) : near q ≤ (k : ℚ) * 2 ^ e := by
  rcases natural.eq_or_lt with rfl | positive
  · rw [near_zero]
    exact above
  have unit : 0 < (2 : ℚ) ^ target q := zpow_pos two_pos _
  have onGrid {n : Nat} (bound : q ≤ n * 2 ^ target q) : near q ≤ n * 2 ^ target q := by
    apply mul_le_mul_of_nonneg_right _ unit.le
    exact_mod_cast roundEven_le (div_nonneg natural unit.le) ((div_le_iff₀ unit).mpr bound)
  by_cases coarse : target q ≤ e
  · rw [scaled_eq k coarse] at above ⊢
    exact onGrid above
  · -- Below the grid there is room for a power of two only, which is the fraction itself.
    have fine := not_le.mp coarse
    have least := le_of_target positive (by omega)
    have most := above.trans (le_power_of_fine fits fine)
    have grid : (2 : ℚ) ^ (target q + 52) = (2 ^ 52 : Nat) * 2 ^ target q := by
      rw [add_comm, zpow_add₀ two_ne_zero, zpow_ofNat]
      push_cast
      rfl
    calc near q ≤ (2 ^ 52 : Nat) * 2 ^ target q := onGrid (grid ▸ most)
      _ = 2 ^ (target q + 52) := grid.symm
      _ ≤ q := least
      _ ≤ k * 2 ^ e := above

theorem power_eq (t : Nat) : (1 : Nat) * (2 : ℚ) ^ (t : Int) = 2 ^ t := by
  rw [Nat.cast_one, one_mul, zpow_natCast]

theorem pow_le_near (t : Nat) (large : (2 : ℚ) ^ t ≤ q) : (2 : ℚ) ^ t ≤ near q := by
  rw [← power_eq] at large ⊢
  exact le_near (by decide) (by omega) large

theorem near_le_pow (t : Nat) (natural : 0 ≤ q) (small : q ≤ (2 : ℚ) ^ t) :
    near q ≤ (2 : ℚ) ^ t := by
  rw [← power_eq] at small ⊢
  exact near_le natural (by decide) (by omega) small

theorem near_eq (fits : k ≤ 2 ^ 53) (least : -1074 ≤ e) : near (k * 2 ^ e) = k * 2 ^ e :=
  le_antisymm
    (near_le (mul_nonneg (Nat.cast_nonneg k) (zpow_pos two_pos e).le) fits least le_rfl)
    (le_near fits least le_rfl)

theorem near_error (natural : 0 ≤ q) : |near q - q| ≤ 2 ^ target q / 2 := by
  have unit : 0 < (2 : ℚ) ^ target q := zpow_pos two_pos _
  have scaled : near q - q = (roundEven (q / 2 ^ target q) - q / 2 ^ target q) * 2 ^ target q := by
    rw [sub_mul, div_mul_cancel₀ _ unit.ne']
    rfl
  rw [scaled, abs_mul, abs_of_pos unit]
  have error := roundEven_error (div_nonneg natural unit.le)
  calc |(roundEven (q / 2 ^ target q) : ℚ) - q / 2 ^ target q| * 2 ^ target q
      ≤ 1 / 2 * 2 ^ target q := mul_le_mul_of_nonneg_right error unit.le
    _ = 2 ^ target q / 2 := by ring

/-- The error is small beside a fraction that is not tiny. -/
theorem near_close (large : (2 : ℚ) ^ (-1022 : Int) ≤ q) : |near q - q| * 2 ^ 53 ≤ q := by
  have positive : 0 < q := (zpow_pos two_pos _).trans_le large
  have bound : (2 : ℚ) ^ (target q + 52) ≤ q := by
    by_cases lowest : target q = -1074
    · rw [lowest]
      exact large
    · exact le_of_target positive lowest
  calc |near q - q| * 2 ^ 53 ≤ 2 ^ target q / 2 * 2 ^ 53 :=
        mul_le_mul_of_nonneg_right (near_error positive.le) (by positivity)
    _ = 2 ^ (target q + 52) := by
        rw [zpow_add₀ two_ne_zero, zpow_ofNat]
        ring
    _ ≤ q := bound

end Near

/-! ### Integers -/

theorem near_natCast {n : Nat} (fits : n ≤ 2 ^ 53) : near n = n := by
  have exact := near_eq (e := 0) fits (by decide)
  rwa [zpow_zero, mul_one] at exact

theorem near_natCast_whole (n : Nat) : ∃ k : Nat, near n = k := by
  by_cases fits : n ≤ 2 ^ 53
  · exact ⟨n, near_natCast fits⟩
  · have log : 53 ≤ Int.log 2 (n : ℚ) := by
      have positive : 0 < (n : ℚ) := by exact_mod_cast Nat.pos_of_ne_zero (by omega)
      rw [← Int.zpow_le_iff_le_log Nat.one_lt_two positive]
      exact_mod_cast (not_le.mp fits).le
    exact whole_of_exponent (by unfold target; omega)

theorem abs_rounding (q : ℚ) : |rounding q| = near |q| := by
  rcases le_total 0 q with natural | negative
  · rw [rounding_of_nonneg natural, abs_of_nonneg natural, abs_of_nonneg (near_nonneg q)]
  · rw [← abs_neg, ← rounding_neg, rounding_of_nonneg (neg_nonneg.mpr negative),
      abs_of_nonneg (near_nonneg _), abs_of_nonpos negative]

theorem rounding_intCast {n : Int} (fits : n.natAbs ≤ 2 ^ 53) : rounding n = n := by
  rcases Int.natAbs_eq n with natural | negative
  · rw [natural, Int.cast_natCast, rounding_of_nonneg (Nat.cast_nonneg _), near_natCast fits]
  · rw [negative, Int.cast_neg, Int.cast_natCast, rounding_neg,
      rounding_of_nonneg (Nat.cast_nonneg _), near_natCast fits]

end Tripwire.Binary64
