import Tripwire.Proofs.Number.Integers

/-!
Rounded arithmetic at the ends of the range of words.

Operands are rounded and so is the result.  A sum above the range never comes
back into it (`le_near_sum`).  Below the range sums do, and products on both
sides, but only those within 4096 of its end.  The quotient of a dividend of 53
binary digits is never rounded to an integer that it is not (`dvd_of_near_div`).
-/

namespace Tripwire.Binary64

section Naturals

variable {i j : Nat}

/-- What exceeds the range by 2048 is not rounded to its end. -/
theorem le_near_beyond {q : ℚ} (large : (2 : ℚ) ^ 63 + 2048 ≤ q) :
    (2 : ℚ) ^ 63 + 2048 ≤ near q := by
  have next : ((2 ^ 52 + 1 : Nat) : ℚ) * 2 ^ (11 : Int) = 2 ^ 63 + 2048 := by norm_num
  rw [← next] at large ⊢
  exact le_near (by decide) (by decide) large

theorem target_of_half {q : ℚ} (lower : (2 : ℚ) ^ 62 ≤ q) (upper : q < 2 ^ 63) :
    target q = 10 := by
  apply target_eq (lt_of_lt_of_le (by positivity) lower) (by decide)
  · exact .inl (by norm_num; linarith)
  · norm_num
    linarith

/-- Half a unit of the last place below the end of the range a tie is even at that end. -/
theorem le_near_of_tie {q : ℚ} (large : (2 : ℚ) ^ 63 - 512 ≤ q) : (2 : ℚ) ^ 63 ≤ near q := by
  rcases le_or_gt ((2 : ℚ) ^ 63) q with beyond | inside
  · exact pow_le_near 63 beyond
  · have exponent := target_of_half (by norm_num at large ⊢; linarith) inside
    have even : 2 ^ 53 ≤ roundEven (q / 2 ^ (10 : Int)) := by
      apply le_roundEven_of_even (by decide)
      rw [← sub_le_iff_le_add, le_div_iff₀ (by positivity)]
      norm_num at large ⊢
      linarith
    rw [near, exponent]
    calc (2 : ℚ) ^ 63 = (2 : ℚ) ^ 53 * (2 : ℚ) ^ (10 : Int) := by norm_num
      _ ≤ (roundEven (q / 2 ^ (10 : Int)) : ℚ) * 2 ^ (10 : Int) :=
        mul_le_mul_of_nonneg_right (by exact_mod_cast even) (by positivity)

theorem near_natCast_close (i : Nat) : |near i - i| * 2 ^ 53 ≤ i := by
  rcases Nat.eq_zero_or_pos i with rfl | positive
  · rw [Nat.cast_zero, near_zero, sub_zero, abs_zero, zero_mul]
  · apply near_close
    have one : (1 : ℚ) ≤ i := by exact_mod_cast positive
    exact (zpow_le_one_of_nonpos₀ one_le_two (by decide)).trans one

theorem near_natCast_error (fits : i ≤ 2 ^ 63) : |near i - i| ≤ 1024 := by
  have close := near_natCast_close i
  have bound : (i : ℚ) ≤ 1024 * 2 ^ 53 := by exact_mod_cast fits
  exact le_of_mul_le_mul_right (close.trans bound) (by positivity)

/-- A sum above the range is not rounded into it. -/
theorem le_near_sum (first : i ≤ 2 ^ 63) (second : j ≤ 2 ^ 63) (sum : 2 ^ 63 ≤ i + j) :
    (2 : ℚ) ^ 63 ≤ near (near i + near j) := by
  wlog order : j ≤ i generalizing i j
  · rw [add_comm]
    exact this second first (by omega) (by omega)
  have total : (2 : ℚ) ^ 63 ≤ i + j := by exact_mod_cast sum
  by_cases full : (2 : ℚ) ^ 63 ≤ near i
  · exact pow_le_near 63 (by linarith [near_nonneg (j : ℚ)])
  -- The larger operand is a multiple of 1024, and what it lacks by more than half of that is
  -- a double, which the smaller operand is not rounded below.
  have inside : (i : ℚ) < 2 ^ 63 := by
    by_contra large
    exact full (pow_le_near 63 (not_lt.mp large))
  have exponent : target i = 10 := by
    have ordered : (j : ℚ) ≤ i := by exact_mod_cast order
    exact target_of_half (by norm_num at total ⊢; linarith) inside
  obtain ⟨k, multiple⟩ : ∃ k : Nat, near i = k * 1024 :=
    ⟨roundEven (i / 2 ^ target i), by rw [near, exponent]; norm_num⟩
  have error := near_error (Nat.cast_nonneg i : (0 : ℚ) ≤ i)
  rw [exponent, multiple, abs_le] at error
  obtain ⟨lower, upper⟩ := error
  norm_num at lower upper total full
  have ordered : (j : ℚ) ≤ i := by exact_mod_cast order
  rw [multiple] at full
  have below : k < 2 ^ 53 := by
    have digits : (k : ℚ) < 2 ^ 53 := by linarith
    exact_mod_cast digits
  have above : 2 ^ 53 ≤ 2 * k + 1 := by
    have digits : (2 : ℚ) ^ 53 ≤ 2 * k + 1 := by linarith
    exact_mod_cast digits
  have lack : ((2 ^ 54 - 2 * k - 1 : Nat) : ℚ) * 2 ^ (9 : Int) = 2 ^ 63 - near i - 512 := by
    rw [multiple, Nat.sub_sub, Nat.cast_sub (by omega)]
    push_cast
    norm_num
    ring
  have other : (2 : ℚ) ^ 63 - near i - 512 ≤ near j := by
    rw [← lack]
    apply le_near (by omega) (by decide)
    rw [lack, multiple]
    norm_num
    linarith
  exact le_near_of_tie (by linarith)

/-- A sum far above the range is rounded to one beyond it. -/
theorem beyond_near_sum (first : i ≤ 2 ^ 63) (second : j ≤ 2 ^ 63)
    (sum : 2 ^ 63 + 4096 < i + j) : (2 : ℚ) ^ 63 + 2048 ≤ near (near i + near j) := by
  have total : (2 : ℚ) ^ 63 + 4096 < i + j := by exact_mod_cast sum
  have one := neg_le_of_abs_le (near_natCast_error first)
  have two := neg_le_of_abs_le (near_natCast_error second)
  exact le_near_beyond (by linarith)

theorem le_near_mul (i : Nat) : (i : ℚ) * (2 ^ 53 - 1) ≤ near i * 2 ^ 53 := by
  have close := near_natCast_close i
  have lower := neg_abs_le (near i - i)
  linarith

/-- A product far outside the range is rounded to one beyond it. -/
theorem beyond_near_product (product : 2 ^ 63 + 4096 < i * j) :
    (2 : ℚ) ^ 63 + 2048 ≤ near (near i * near j) := by
  apply le_near_beyond
  have total : (2 : ℚ) ^ 63 + 4097 ≤ i * j := by exact_mod_cast product
  have digits : (0 : ℚ) ≤ 2 ^ 53 - 1 := by norm_num
  have scaled : (i : ℚ) * j * (2 ^ 53 - 1) ^ 2 ≤ near i * near j * (2 ^ 53) ^ 2 :=
    calc (i : ℚ) * j * (2 ^ 53 - 1) ^ 2 = i * (2 ^ 53 - 1) * (j * (2 ^ 53 - 1)) := by ring
      _ ≤ near i * 2 ^ 53 * (near j * 2 ^ 53) :=
        mul_le_mul (le_near_mul i) (le_near_mul j) (mul_nonneg (Nat.cast_nonneg j) digits)
          (mul_nonneg (near_nonneg _) (by positivity))
      _ = near i * near j * (2 ^ 53) ^ 2 := by ring
  norm_num at scaled total ⊢
  linarith

/-- A quotient that is rounded to a natural number is one, if 53 digits hold the dividend. -/
theorem dvd_of_near_div {k : Nat} (some : 0 < i) (fits : i < 2 ^ 53) (divisor : 0 < j)
    (bounded : j ≤ 2 ^ 63) (whole : near ((i : ℚ) / j) = k) : j ∣ i := by
  have positive : 0 < (j : ℚ) := by exact_mod_cast divisor
  have small : (i : ℚ) < 2 ^ 53 := by exact_mod_cast fits
  have large : (2 : ℚ) ^ (-1022 : Int) ≤ i / j := by
    have one : (1 : ℚ) ≤ i := by exact_mod_cast some
    have most : (j : ℚ) ≤ 2 ^ 63 := by exact_mod_cast bounded
    calc (2 : ℚ) ^ (-1022 : Int) ≤ 2 ^ (-63 : Int) := zpow_le_zpow_right₀ one_le_two (by decide)
      _ = 1 / 2 ^ 63 := by norm_num
      _ ≤ i / j := div_le_div₀ (by linarith) one positive most
  have close := near_close large
  rw [whole] at close
  -- The quotient differs from a natural number by a whole number of parts of the divisor.
  have gap : |(k : ℚ) * j - i| < 1 := by
    have parts : |(k : ℚ) - i / j| * j = |(k : ℚ) * j - i| := by
      rw [← abs_of_pos positive, ← abs_mul, abs_of_pos positive, sub_mul,
        div_mul_cancel₀ _ positive.ne']
    rw [le_div_iff₀ positive, mul_right_comm, parts] at close
    by_contra apart
    have one := mul_le_mul_of_nonneg_right (not_lt.mp apart) (by positivity : (0 : ℚ) ≤ 2 ^ 53)
    linarith
  have equal : (k * j : Int) - i = 0 := Int.abs_lt_one_iff.mp (by exact_mod_cast gap)
  exact ⟨k, by rw [mul_comm]; exact_mod_cast (sub_eq_zero.mp equal).symm⟩

end Naturals

/-! ### Words -/

section Words

variable {p q : Int} {n : Int64}

theorem abs_intCast (p : Int) : |(p : ℚ)| = p.natAbs := by rw [Nat.cast_natAbs, Int.cast_abs]

theorem abs_rounding_intCast (p : Int) : |rounding p| = near p.natAbs := by
  rw [abs_rounding, abs_intCast]

theorem abs_rounding_le (fits : p.natAbs ≤ 2 ^ 63) : |rounding p| ≤ 2 ^ 63 := by
  rw [abs_rounding_intCast]
  exact near_le_pow 63 (Nat.cast_nonneg _) (by exact_mod_cast fits)

/-- A rounded sum that is a word comes from a sum in range or a little below. -/
theorem bounds_of_sum (first : p.natAbs ≤ 2 ^ 63) (second : q.natAbs ≤ 2 ^ 63)
    (value : (n.toInt : ℚ) = rounding (rounding p + rounding q)) :
    -(2 ^ 63 + 4096) ≤ p + q ∧ p + q < 2 ^ 63 := by
  constructor
  · by_contra below
    obtain ⟨i, rfl⟩ : ∃ i : Nat, p = -i := ⟨p.natAbs, by omega⟩
    obtain ⟨j, rfl⟩ : ∃ j : Nat, q = -j := ⟨q.natAbs, by omega⟩
    simp only [Int.cast_neg, Int.cast_natCast, rounding_neg] at value
    rw [rounding_of_nonneg (Nat.cast_nonneg i), rounding_of_nonneg (Nat.cast_nonneg j),
      ← neg_add, rounding_neg,
      rounding_of_nonneg (add_nonneg (near_nonneg _) (near_nonneg _))] at value
    have beyond := beyond_near_sum (i := i) (j := j) (by omega) (by omega) (by omega)
    have least : -(2 : ℚ) ^ 63 ≤ n.toInt := by exact_mod_cast n.le_toInt
    linarith
  · by_contra above
    obtain ⟨i, rfl⟩ := Int.eq_ofNat_of_zero_le (by omega : 0 ≤ p)
    obtain ⟨j, rfl⟩ := Int.eq_ofNat_of_zero_le (by omega : 0 ≤ q)
    simp only [Int.cast_natCast] at value
    rw [rounding_of_nonneg (Nat.cast_nonneg i), rounding_of_nonneg (Nat.cast_nonneg j),
      rounding_of_nonneg (add_nonneg (near_nonneg _) (near_nonneg _))] at value
    have large := le_near_sum (i := i) (j := j) (by omega) (by omega) (by omega)
    have most : (n.toInt : ℚ) < 2 ^ 63 := by exact_mod_cast n.toInt_lt
    linarith

/-- A rounded product that is a word comes from a product in range or a little outside. -/
theorem bounds_of_product (value : (n.toInt : ℚ) = rounding (rounding p * rounding q)) :
    (p * q).natAbs ≤ 2 ^ 63 + 4096 := by
  by_contra outside
  rw [Int.natAbs_mul] at outside
  have size := abs_toInt_le n
  rw [value, abs_rounding, abs_mul, abs_rounding_intCast, abs_rounding_intCast] at size
  have beyond := beyond_near_product (not_le.mp outside)
  linarith

/-- A rounded quotient that is an integer is exact, if 53 digits hold the dividend. -/
theorem dvd_of_quotient {k : Int} (fits : p.natAbs < 2 ^ 53) (divisor : q ≠ 0)
    (bounded : q.natAbs ≤ 2 ^ 63) (value : (k : ℚ) = rounding (rounding p / rounding q)) :
    q ∣ p := by
  by_cases zero : p = 0
  · exact zero ▸ dvd_zero q
  obtain ⟨j, whole⟩ := near_natCast_whole q.natAbs
  have size : near ((p.natAbs : ℚ) / j) = k.natAbs := by
    rw [← abs_intCast k, value, abs_rounding, abs_div, abs_rounding_intCast, abs_rounding_intCast,
      whole, near_natCast fits.le]
  have some : 0 < j := by
    have one : (2 : ℚ) ^ 0 ≤ near q.natAbs :=
      pow_le_near 0 (by exact_mod_cast Int.natAbs_pos.mpr divisor)
    rw [whole] at one
    exact_mod_cast one
  have range : j ≤ 2 ^ 63 := by
    have most : near q.natAbs ≤ 2 ^ 63 :=
      near_le_pow 63 (Nat.cast_nonneg _) (by exact_mod_cast bounded)
    rw [whole] at most
    exact_mod_cast most
  have divides := dvd_of_near_div (Int.natAbs_pos.mpr zero) fits some range size
  by_cases small : q.natAbs ≤ 2 ^ 53
  · rw [near_natCast small] at whole
    have same : q.natAbs = j := by exact_mod_cast whole
    exact Int.natAbs_dvd_natAbs.mp (same ▸ divides)
  · -- A large divisor stays larger than the dividend.
    have large : 2 ^ 53 ≤ j := by
      have kept : (2 : ℚ) ^ 53 ≤ near q.natAbs :=
        pow_le_near 53 (by exact_mod_cast (not_le.mp small).le)
      rw [whole] at kept
      exact_mod_cast kept
    have least := Nat.le_of_dvd (Int.natAbs_pos.mpr zero) divides
    omega

end Words

end Tripwire.Binary64
