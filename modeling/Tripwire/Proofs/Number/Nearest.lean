import Mathlib
import Tripwire.Number.Binary64

/-!
The double nearest to a positive fraction, to even on a tie.  `nearest` has no
largest exponent: packing turns what is too large into an infinity.
-/

namespace Tripwire.Binary64

open Float.Model

/-- The nearest natural number, to even on a tie. -/
def roundEven (q : ℚ) : Nat :=
  let halves := ⌊2 * q⌋₊
  if halves % 2 = 0 then halves / 2
  else if 2 * q = halves then halves / 2 + halves / 2 % 2
  else halves / 2 + 1

section Natural

variable {q : ℚ} {n : Nat}

theorem roundEven_natCast (n : Nat) : roundEven n = n := by
  have halves : ⌊2 * (n : ℚ)⌋₊ = 2 * n := by exact_mod_cast Nat.floor_natCast (R := ℚ) (2 * n)
  simp only [roundEven, halves]
  rw [if_pos (Nat.mul_mod_right 2 n), Nat.mul_div_cancel_left n Nat.two_pos]

theorem roundEven_le (natural : 0 ≤ q) (bound : q ≤ n) : roundEven q ≤ n := by
  by_cases equal : q = n
  · rw [equal, roundEven_natCast]
  have smaller : q < n := lt_of_le_of_ne bound equal
  have below : ⌊2 * q⌋₊ < 2 * n := by
    rw [Nat.floor_lt (by positivity)]
    push_cast
    linarith
  unfold roundEven
  grind

theorem le_roundEven (bound : n ≤ q) : n ≤ roundEven q := by
  have above : 2 * n ≤ ⌊2 * q⌋₊ := by
    apply Nat.le_floor
    push_cast
    linarith
  unfold roundEven
  grind

theorem roundEven_of_near (natural : 0 ≤ q) (lower : n < q + 1 / 2) (upper : q < n + 1 / 2) :
    roundEven q = n := by
  have double : 0 ≤ 2 * q := by positivity
  by_cases above : n ≤ q
  · have halves : ⌊2 * q⌋₊ = 2 * n := by
      rw [Nat.floor_eq_iff double]
      push_cast
      constructor <;> linarith
    unfold roundEven
    grind
  · -- Just below a natural number the halves are odd, and there is no tie.
    have positive : 0 < n := by
      have shown : (0 : ℚ) < n := by linarith
      exact_mod_cast shown
    have halves : ⌊2 * q⌋₊ = 2 * n - 1 := by
      rw [Nat.floor_eq_iff double, Nat.cast_sub (by omega)]
      push_cast
      constructor <;> linarith
    have noTie : 2 * q ≠ (2 * n - 1 : Nat) := by
      rw [Nat.cast_sub (by omega)]
      push_cast
      intro tie
      linarith
    unfold roundEven
    grind

end Natural

/-- The exponent of the nearest double: 53 digits, but none below the least exponent. -/
def target (q : ℚ) : Int := max (Int.log 2 q - 52) (-1074)

/-- The nearest double without a bound on the exponent. -/
def nearest (q : ℚ) : UnpackedFloat :=
  let mantissa := roundEven (q / 2 ^ target q)
  if zero : mantissa = 0 then .zero .positive
  else if mantissa < 2 ^ 53 then .finite .positive mantissa (target q) (Nat.pos_of_ne_zero zero)
  else .finite .positive (2 ^ 52) (target q + 1) (by decide)

theorem nearest_zero : nearest 0 = .zero .positive := by
  have zero : roundEven (0 / 2 ^ target 0) = 0 := by
    rw [zero_div]
    exact_mod_cast roundEven_natCast 0
  rw [nearest, dif_pos zero]

theorem target_eq {q : ℚ} {e : Int} (positive : 0 < q) (least : -1074 ≤ e)
    (lower : (2 : ℚ) ^ (e + 52) ≤ q ∨ e = -1074) (upper : q < (2 : ℚ) ^ (e + 53)) :
    target q = e := by
  have below : Int.log 2 q < e + 53 := (Int.lt_zpow_iff_log_lt Nat.one_lt_two positive).mp upper
  unfold target
  rcases lower with lower | rfl
  · have above : e + 52 ≤ Int.log 2 q := (Int.zpow_le_iff_le_log Nat.one_lt_two positive).mp lower
    omega
  · omega

/-- A mantissa and an exponent as a double has them. -/
structure Canonical (m : Nat) (e : Int) : Prop where
  positive : 0 < m
  fits : m < 2 ^ 53
  least : -1074 ≤ e
  full : 2 ^ 52 ≤ m ∨ e = -1074

theorem roundEven_div_of_near {q unit : ℚ} {n : Nat} (natural : 0 ≤ q) (positive : 0 < unit)
    (lower : n * unit < q + unit / 2) (upper : q < n * unit + unit / 2) :
    roundEven (q / unit) = n := by
  apply roundEven_of_near (div_nonneg natural positive.le)
  · rw [← sub_lt_iff_lt_add, lt_div_iff₀ positive]
    linarith
  · rw [div_lt_iff₀ positive]
    linarith

theorem nearest_of_fits {q : ℚ} {m : Nat} {e : Int} (exponent : target q = e)
    (mantissa : roundEven (q / 2 ^ e) = m) (positive : 0 < m) (fits : m < 2 ^ 53) :
    nearest q = .finite .positive m e positive := by
  subst exponent mantissa
  rw [nearest, dif_neg positive.ne', if_pos fits]

theorem nearest_of_carry {q : ℚ} {e : Int} (exponent : target q = e)
    (mantissa : roundEven (q / 2 ^ e) = 2 ^ 53) :
    nearest q = .finite .positive (2 ^ 52) (e + 1) (by decide) := by
  subst exponent
  rw [nearest, dif_neg (by rw [mantissa]; decide), if_neg (by rw [mantissa]; decide)]

/-- A double is nearest to what is within a quarter of its last place. -/
theorem nearest_of_near {m : Nat} {e : Int} (canonical : Canonical m e) {q : ℚ}
    (near : |q - m * 2 ^ e| * 2 ^ 54 < m * 2 ^ e) :
    nearest q = .finite .positive m e canonical.positive := by
  obtain ⟨positive, fits, least, full⟩ := canonical
  have unit : 0 < (2 : ℚ) ^ e := zpow_pos two_pos e
  have large : (m : ℚ) * 2 ^ e ≤ (2 ^ 53 - 1) * 2 ^ e := by
    apply mul_le_mul_of_nonneg_right _ unit.le
    have within : (m : ℚ) + 1 ≤ 2 ^ 53 := by exact_mod_cast fits
    linarith
  have gap : |q - m * 2 ^ e| < m * 2 ^ e / 2 ^ 54 := by
    rw [lt_div_iff₀ (by norm_num)]
    exact near
  obtain ⟨lower, upper⟩ := abs_lt.mp gap
  have some : 0 < (m : ℚ) * 2 ^ e := mul_pos (by exact_mod_cast positive) unit
  have nonneg : 0 < q := by linarith
  by_cases own : (2 : ℚ) ^ (e + 52) ≤ q ∨ e = -1074
  · have exponent : target q = e := by
      apply target_eq nonneg least own
      rw [zpow_add₀ two_ne_zero, zpow_ofNat]
      linarith
    have mantissa : roundEven (q / 2 ^ e) = m := by
      apply roundEven_div_of_near nonneg.le unit <;> linarith
    exact nearest_of_fits exponent mantissa positive fits
  · -- Only below the least mantissa is the next smaller exponent the target.
    obtain ⟨smaller, notLeast⟩ := not_or.mp own
    rw [zpow_add₀ two_ne_zero, zpow_ofNat, not_le] at smaller
    have power : m = 2 ^ 52 := by
      have above : 2 ^ 52 ≤ m := full.resolve_right notLeast
      by_contra different
      have more : ((2 : ℚ) ^ 52 + 1) * 2 ^ e ≤ m * 2 ^ e := by
        apply mul_le_mul_of_nonneg_right _ unit.le
        exact_mod_cast Nat.lt_of_le_of_ne above (Ne.symm different)
      linarith
    subst power
    push_cast at lower upper
    have half : (2 : ℚ) ^ (e - 1) = 2 ^ e / 2 := zpow_sub_one₀ two_ne_zero e
    have exponent : target q = e - 1 := by
      apply target_eq nonneg (by omega)
      · left
        rw [zpow_add₀ two_ne_zero, zpow_ofNat, half]
        linarith
      · rw [zpow_add₀ two_ne_zero, zpow_ofNat, half]
        linarith
    have mantissa : roundEven (q / 2 ^ (e - 1)) = 2 ^ 53 := by
      rw [half]
      apply roundEven_div_of_near nonneg.le (half_pos unit) <;> push_cast <;> linarith
    rw [nearest_of_carry exponent mantissa]
    congr 1
    omega

theorem le_target (q : ℚ) : -1074 ≤ target q := le_max_right _ _

theorem lt_of_target {q : ℚ} (positive : 0 < q) : q < (2 : ℚ) ^ (target q + 53) := by
  rw [← Nat.cast_ofNat, Int.lt_zpow_iff_log_lt Nat.one_lt_two positive]
  unfold target
  omega

theorem le_of_target {q : ℚ} (positive : 0 < q) (large : target q ≠ -1074) :
    (2 : ℚ) ^ (target q + 52) ≤ q := by
  rw [← Nat.cast_ofNat, Int.zpow_le_iff_le_log Nat.one_lt_two positive]
  unfold target at large ⊢
  omega

theorem roundEven_target_le {q : ℚ} (positive : 0 < q) :
    roundEven (q / 2 ^ target q) ≤ 2 ^ 53 := by
  have unit : 0 < (2 : ℚ) ^ target q := zpow_pos two_pos _
  have below := lt_of_target positive
  rw [zpow_add₀ two_ne_zero, zpow_ofNat] at below
  apply roundEven_le (div_nonneg positive.le unit.le)
  rw [div_le_iff₀ unit]
  push_cast
  linarith

theorem le_roundEven_target {q : ℚ} (positive : 0 < q) (large : target q ≠ -1074) :
    2 ^ 52 ≤ roundEven (q / 2 ^ target q) := by
  have unit : 0 < (2 : ℚ) ^ target q := zpow_pos two_pos _
  have above := le_of_target positive large
  rw [zpow_add₀ two_ne_zero, zpow_ofNat] at above
  apply le_roundEven
  rw [le_div_iff₀ unit]
  push_cast
  linarith

/-- The nearest double is zero or has a mantissa and an exponent as doubles have them. -/
theorem nearest_cases {q : ℚ} (positive : 0 < q) :
    nearest q = .zero .positive ∨
      ∃ m e, ∃ canonical : Canonical m e, nearest q = .finite .positive m e canonical.positive := by
  by_cases zero : roundEven (q / 2 ^ target q) = 0
  · exact .inl (by rw [nearest, dif_pos zero])
  · right
    have some := Nat.pos_of_ne_zero zero
    by_cases fits : roundEven (q / 2 ^ target q) < 2 ^ 53
    · refine ⟨_, _, ⟨some, fits, le_target q, ?_⟩, nearest_of_fits rfl rfl some fits⟩
      by_cases large : target q = -1074
      · exact .inr large
      · exact .inl (le_roundEven_target positive large)
    · have carry := Nat.le_antisymm (roundEven_target_le positive) (Nat.not_lt.mp fits)
      refine ⟨_, _, ⟨by decide, by decide, ?_, .inl (Nat.le_refl _)⟩, nearest_of_carry rfl carry⟩
      have least := le_target q
      omega

theorem whole_of_exponent {m : Nat} {e : Int} (natural : 0 ≤ e) :
    ∃ k : Nat, (m : ℚ) * 2 ^ e = k := by
  obtain ⟨exponent, rfl⟩ := Int.eq_ofNat_of_zero_le natural
  exact ⟨m * 2 ^ exponent, by push_cast; rw [zpow_natCast]⟩

theorem exponent_of_nearest {q : ℚ} {m : Nat} {e : Int} {some : 0 < m}
    (found : nearest q = .finite .positive m e some) : target q ≤ e := by
  rw [nearest] at found
  split at found
  · cases found
  · split at found <;> cases found <;> omega

/-- The double nearest to a natural number is a natural number. -/
theorem nearest_natCast_whole {n m : Nat} {e : Int} {some : 0 < m} (positive : 0 < n)
    (found : nearest n = .finite .positive m e some) : ∃ k : Nat, (m : ℚ) * 2 ^ e = k := by
  by_cases natural : 0 ≤ target n
  · exact whole_of_exponent (natural.trans (exponent_of_nearest found))
  · -- Below the units there are places enough for all binary digits.
    have value : 0 < (n : ℚ) := by exact_mod_cast positive
    obtain ⟨places, same⟩ := Int.eq_ofNat_of_zero_le (neg_nonneg.mpr (le_of_not_ge natural))
    have exact : (n : ℚ) / 2 ^ target n = (n * 2 ^ places : Nat) := by
      rw [← neg_neg (target n), same, zpow_neg, div_inv_eq_mul, zpow_natCast]
      push_cast
      rfl
    have mantissa : roundEven (n / 2 ^ target n) = n * 2 ^ places := by
      rw [exact, roundEven_natCast]
    have fits : n * 2 ^ places < 2 ^ 53 := by
      have below := lt_of_target value
      rw [zpow_add₀ two_ne_zero, zpow_ofNat, mul_comm, ← div_lt_iff₀ (zpow_pos two_pos _), exact]
        at below
      exact_mod_cast below
    rw [nearest_of_fits rfl mantissa (by positivity) fits] at found
    cases found
    exact ⟨n, by rw [← exact, div_mul_cancel₀ _ (zpow_ne_zero _ two_ne_zero)]⟩

end Tripwire.Binary64
