import Tripwire.Proofs.Number.Nearest

/-!
Rounding by shifts.  A mantissa with its two residual bits stands for a fraction
whose halves it counts; each shift halves the fraction, and what remains at the
target exponent is rounded as the fraction itself.
-/

namespace Tripwire.Binary64

open Float.Model UnpackedFloat

/-- The mantissa and the round bit count the halves of a fraction, and the sticky bit tells
whether there is more. -/
structure Represents (em : ExtendedMantissa) (q : ℚ) : Prop where
  halves : ⌊2 * q⌋₊ = 2 * em.mantissa + em.roundBit.toNat
  sticky : em.stickyBit = true ↔ 2 * q ≠ ⌊2 * q⌋₊

namespace Represents

variable {em : ExtendedMantissa} {q : ℚ}

theorem rounded (represents : Represents em q) : em.roundedMantissa = roundEven q := by
  obtain ⟨halves, sticky⟩ := represents
  obtain ⟨mantissa, roundBit, stickyBit⟩ := em
  unfold roundEven
  cases roundBit <;> cases stickyBit <;>
    simp only [ExtendedMantissa.roundedMantissa, ExtendedMantissa.accuracy,
      Accuracy.roundToNearestEven, Bool.toNat_false, Bool.toNat_true] at halves sticky ⊢ <;>
    grind

theorem floor (represents : Represents em q) : ⌊q⌋₊ = em.mantissa := by
  have halved : ⌊2 * q / 2⌋₊ = ⌊2 * q⌋₊ / 2 := Nat.floor_div_ofNat (2 * q) 2
  rw [mul_div_cancel_left₀ q two_ne_zero, represents.halves] at halved
  rw [halved]
  have small := Bool.toNat_lt em.roundBit
  omega

theorem shiftRightOne (represents : Represents em q) : Represents em.shiftRightOne (q / 2) := by
  have whole : 2 * (q / 2) = q := mul_div_cancel₀ q two_ne_zero
  constructor
  · rw [whole, represents.floor, ExtendedMantissa.shiftRightOne]
    rcases Nat.mod_two_eq_zero_or_one em.mantissa with even | odd
    · simp [even]
      omega
    · simp [odd]
      omega
  · -- More is left than the round bit says when the fraction is no natural number.
    have exact : em.roundBit = false ∧ em.stickyBit = false ↔ q = em.mantissa := by
      have halves := represents.halves
      have sticky := represents.sticky
      constructor
      · rintro ⟨round, noMore⟩
        rw [round, Bool.toNat_false, Nat.add_zero] at halves
        rw [noMore, halves] at sticky
        have equal : 2 * q = (2 * em.mantissa : Nat) := by
          by_contra different
          exact Bool.false_ne_true (sticky.mpr different)
        push_cast at equal
        linarith
      · intro equal
        have doubled : 2 * q = (2 * em.mantissa : Nat) := by
          push_cast
          linarith
        rw [doubled, Nat.floor_natCast] at halves sticky
        constructor
        · have none : em.roundBit.toNat = 0 := by omega
          exact Bool.toNat_eq_zero.mp none
        · simpa using sticky
    rw [whole, represents.floor, ExtendedMantissa.shiftRightOne, Bool.or_eq_true, Ne, ← exact]
    grind

theorem shiftRight (represents : Represents em q) (count : Nat) :
    Represents (em >>> count) (q / 2 ^ count) := by
  induction count with
  | zero => 
    rw [pow_zero, div_one]
    exact represents
  | succ count ih =>
    rw [pow_succ, ← div_div]
    exact ih.shiftRightOne

end Represents

theorem represents_exact (m : Nat) : Represents (.ofMantissaAndAccuracy m .exact) m := by
  have halves : ⌊2 * (m : ℚ)⌋₊ = 2 * m := by exact_mod_cast Nat.floor_natCast (R := ℚ) (2 * m)
  constructor
  · rw [halves]
    rfl
  · rw [halves]
    simp [ExtendedMantissa.ofMantissaAndAccuracy]

theorem targetExponent_eq (m : Nat) (e : Int) :
    Format.binary64.targetExponent (totalExponent m e) = max (m.log2 + e - 52) (-1074) := by
  simp only [Format.targetExponent, totalExponent, Format.mantissaBits, Format.minExponent]
  omega

/-- The target of a mantissa that stands for a fraction is the target of the fraction. -/
theorem targetExponent_of_represents {q : ℚ} {m : Nat} {e : Int} (positive : 0 < q)
    (floor : ⌊q / 2 ^ e⌋₊ = m) (fine : e ≤ target q) :
    Format.binary64.targetExponent (totalExponent m e) = target q := by
  have unit : 0 < (2 : ℚ) ^ e := zpow_pos two_pos e
  obtain ⟨lower, upper⟩ := (Nat.floor_eq_iff (div_nonneg positive.le unit.le)).mp floor
  rw [le_div_iff₀ unit] at lower
  rw [div_lt_iff₀ unit] at upper
  rw [targetExponent_eq]
  by_cases zero : m = 0
  · subst zero
    have below : Int.log 2 q < e := by
      rw [← Int.lt_zpow_iff_log_lt Nat.one_lt_two positive]
      push_cast at upper ⊢
      linarith
    simp only [Nat.log2_zero]
    unfold target at fine ⊢
    omega
  · have least : (2 : ℚ) ^ m.log2 ≤ m := by exact_mod_cast Nat.log2_self_le zero
    have most : (m : ℚ) + 1 ≤ 2 ^ (m.log2 + 1) := by exact_mod_cast Nat.lt_log2_self
    have above : m.log2 + e ≤ Int.log 2 q := by
      rw [← Int.zpow_le_iff_le_log Nat.one_lt_two positive, Nat.cast_ofNat,
        zpow_add₀ two_ne_zero, zpow_natCast]
      exact (mul_le_mul_of_nonneg_right least unit.le).trans lower
    have below : Int.log 2 q < (m.log2 + 1 : Nat) + e := by
      rw [← Int.lt_zpow_iff_log_lt Nat.one_lt_two positive, Nat.cast_ofNat,
        zpow_add₀ two_ne_zero, zpow_natCast]
      exact upper.trans_le (mul_le_mul_of_nonneg_right most unit.le)
    unfold target
    omega

/-- A mantissa that fits is not shifted any more. -/
theorem shiftToTargetExponent_of_fits {m : Nat} {e : Int} (fits : m < 2 ^ 53)
    (least : -1074 ≤ e) :
    shiftToTargetExponent .binary64 m e .exact = (.ofMantissaAndAccuracy m .exact, e) := by
  have digits : m.log2 < 53 := by
    by_cases zero : m = 0
    · rw [zero]
      decide
    · exact (Nat.log2_lt zero).mpr fits
  have still : (Format.binary64.targetExponent (totalExponent m e) - e).toNat = 0 := by
    rw [targetExponent_eq]
    omega
  rw [shiftToTargetExponent, shiftToExponent, still, Int.natCast_zero, Int.add_zero]
  rfl

theorem shiftToTargetExponent_of_carry {e : Int} (least : -1074 ≤ e) :
    shiftToTargetExponent .binary64 (2 ^ 53) e .exact =
      (.ofMantissaAndAccuracy (2 ^ 52) .exact, e + 1) := by
  have once : (Format.binary64.targetExponent (totalExponent (2 ^ 53) e) - e).toNat = 1 := by
    rw [targetExponent_eq, Nat.log2_two_pow]
    omega
  rw [shiftToTargetExponent, shiftToExponent, once]
  rfl

theorem roundWithAccuracy_of_shifts {m : Nat} {e middle last : Int} {accuracy : Accuracy}
    {first second : ExtendedMantissa}
    (one : shiftToTargetExponent .binary64 m e accuracy = (first, middle))
    (two : shiftToTargetExponent .binary64 first.roundedMantissa middle .exact = (second, last)) :
    roundWithAccuracy .binary64 .positive m e accuracy =
      if zero : second.mantissa = 0 then .zero .positive
      else .finite .positive second.mantissa last (Nat.pos_of_ne_zero zero) := by
  rw [roundWithAccuracy, one]
  simp only [two]

/-- Rounding what stands for a fraction yields the nearest double, if no digit is lost before. -/
theorem roundWithAccuracy_eq {q : ℚ} {m : Nat} {e : Int} {accuracy : Accuracy} (positive : 0 < q)
    (represents : Represents (.ofMantissaAndAccuracy m accuracy) (q / 2 ^ e))
    (fine : e ≤ target q) :
    roundWithAccuracy .binary64 .positive m e accuracy = nearest q := by
  have floor : ⌊q / 2 ^ e⌋₊ = m := by
    rw [represents.floor]
    cases accuracy with
    | exact => rfl
    | inexact order => cases order <;> rfl
  obtain ⟨count, shift⟩ := Int.eq_ofNat_of_zero_le (Int.sub_nonneg_of_le fine)
  have shifted := represents.shiftRight count
  have scaled : q / 2 ^ e / 2 ^ count = q / 2 ^ target q := by
    rw [div_div, ← zpow_natCast, ← zpow_add₀ two_ne_zero]
    congr 2
    omega
  rw [scaled] at shifted
  have first : shiftToTargetExponent .binary64 m e accuracy =
      (ExtendedMantissa.ofMantissaAndAccuracy m accuracy >>> count, target q) := by
    rw [shiftToTargetExponent, targetExponent_of_represents positive floor fine, shiftToExponent,
      shift, Int.toNat_natCast, ← shift]
    congr 1
    omega
  have least := le_target q
  by_cases fits : roundEven (q / 2 ^ target q) < 2 ^ 53
  · have second := shiftToTargetExponent_of_fits fits least
    nth_rewrite 1 [← shifted.rounded] at second
    rw [roundWithAccuracy_of_shifts first second, nearest]
    simp only [fits, if_true]
    rfl
  · have carry := Nat.le_antisymm (roundEven_target_le positive) (Nat.not_lt.mp fits)
    have second := shiftToTargetExponent_of_carry least
    rw [← carry, ← shifted.rounded] at second
    rw [roundWithAccuracy_of_shifts first second, nearest_of_carry rfl carry]
    rfl

theorem cast_div_eq_iff {a d : Nat} (positive : 0 < d) :
    (a : ℚ) / d = (a / d : Nat) ↔ a % d = 0 := by
  have nonzero : (d : ℚ) ≠ 0 := by exact_mod_cast positive.ne'
  rw [div_eq_iff nonzero]
  norm_cast
  have split := Nat.div_add_mod a d
  rw [Nat.mul_comm] at split
  omega

/-- A quotient with its remainder stands for the fraction. -/
theorem represents_fraction (n : Nat) {d : Nat} (positive : 0 < d) :
    Represents (.ofMantissaAndAccuracy (n / d) (accuracyOfFraction (n % d) d)) (n / d) := by
  have doubled : 2 * ((n : ℚ) / d) = (2 * n : Nat) / d := by
    push_cast
    ring
  have floor : ⌊2 * ((n : ℚ) / d)⌋₊ = 2 * n / d := by rw [doubled, Nat.floor_div_eq_div]
  have exact : 2 * ((n : ℚ) / d) = (2 * n / d : Nat) ↔ 2 * n % d = 0 := by
    rw [doubled]
    exact cast_div_eq_iff positive
  have small := Nat.mod_lt n positive
  have twice : 2 * n = 2 * (n % d) + d * (2 * (n / d)) := by
    have split := Nat.div_add_mod n d
    linarith
  have quotient : 2 * n / d = 2 * (n % d) / d + 2 * (n / d) := by
    rw [twice, Nat.add_mul_div_left _ _ positive]
  have remainder : 2 * n % d = 2 * (n % d) % d := by
    rw [twice, Nat.add_mul_mod_self_left]
  constructor
  · rw [floor, quotient, accuracyOfFraction]
    split
    next zero => simp [zero, ExtendedMantissa.ofMantissaAndAccuracy]
    next =>
      cases order : compare (2 * (n % d)) d with
      | lt =>
        rw [Nat.div_eq_of_lt (Nat.compare_eq_lt.mp order), Nat.zero_add]
        rfl
      | eq =>
        rw [Nat.compare_eq_eq.mp order, Nat.div_self positive, Nat.add_comm]
        rfl
      | gt =>
        have above := Nat.compare_eq_gt.mp order
        have one : 2 * (n % d) / d = 1 := Nat.div_eq_of_lt_le (by omega) (by omega)
        rw [one, Nat.add_comm]
        rfl
  · rw [floor, Ne, exact, remainder, accuracyOfFraction]
    split
    next zero => simp [zero, ExtendedMantissa.ofMantissaAndAccuracy]
    next some =>
      cases order : compare (2 * (n % d)) d with
      | lt =>
        rw [Nat.mod_eq_of_lt (Nat.compare_eq_lt.mp order)]
        simp [ExtendedMantissa.ofMantissaAndAccuracy, some]
      | eq => simp [ExtendedMantissa.ofMantissaAndAccuracy, Nat.compare_eq_eq.mp order]
      | gt =>
        have above := Nat.compare_eq_gt.mp order
        rw [Nat.mod_eq_sub_mod above.le, Nat.mod_eq_of_lt (by omega)]
        simp [ExtendedMantissa.ofMantissaAndAccuracy]
        omega

section Operations

variable {m n : Nat} {e f : Int} {some : 0 < m} {other : 0 < n}

theorem product_eq (m n : Nat) (e f : Int) :
    (m : ℚ) * 2 ^ e * (n * 2 ^ f) = (m * n : Nat) * 2 ^ (e + f) := by
  rw [zpow_add₀ two_ne_zero]
  push_cast
  ring

theorem mul_eq_of_fine (fine : e + f ≤ target (m * 2 ^ e * (n * 2 ^ f))) :
    mul .binary64 (.finite .positive m e some) (.finite .positive n f other) =
      nearest (m * 2 ^ e * (n * 2 ^ f)) := by
  have unit : 0 < (2 : ℚ) ^ (e + f) := zpow_pos two_pos _
  have positive : 0 < ((m * n : Nat) : ℚ) * 2 ^ (e + f) :=
    mul_pos (by exact_mod_cast Nat.mul_pos some other) unit
  rw [product_eq] at fine ⊢
  rw [← roundWithAccuracy_eq positive _ fine]
  · rfl
  · rw [mul_div_cancel_right₀ _ unit.ne']
    exact represents_exact (m * n)

theorem fine_of_full (other : 0 < n) (full : 2 ^ 52 ≤ m) :
    e + f ≤ target ((m : ℚ) * 2 ^ e * (n * 2 ^ f)) := by
  have unit : 0 < (2 : ℚ) ^ (e + f) := zpow_pos two_pos _
  have large : (2 : ℚ) ^ 52 ≤ (m * n : Nat) := by
    exact_mod_cast full.trans (Nat.le_mul_of_pos_right m other)
  have positive : 0 < ((m * n : Nat) : ℚ) * 2 ^ (e + f) :=
    mul_pos (lt_of_lt_of_le (by positivity) large) unit
  have above : 52 + (e + f) ≤ Int.log 2 (((m * n : Nat) : ℚ) * 2 ^ (e + f)) := by
    rw [← Int.zpow_le_iff_le_log Nat.one_lt_two positive, Nat.cast_ofNat,
      zpow_add₀ two_ne_zero, zpow_ofNat]
    exact mul_le_mul_of_nonneg_right large unit.le
  rw [product_eq]
  unfold target
  omega

theorem mul_eq (full : 2 ^ 52 ≤ m) :
    mul .binary64 (.finite .positive m e some) (.finite .positive n f other) =
      nearest (m * 2 ^ e * (n * 2 ^ f)) :=
  mul_eq_of_fine (fine_of_full other full)

theorem log_div_ge (some : 0 < m) (other : 0 < n) :
    (m.log2 + e) - (n.log2 + f) - 1 ≤ Int.log 2 ((m : ℚ) * 2 ^ e / (n * 2 ^ f)) := by
  have least : (2 : ℚ) ^ m.log2 ≤ m := by exact_mod_cast Nat.log2_self_le some.ne'
  have most : (n : ℚ) ≤ 2 ^ (n.log2 + 1) := by exact_mod_cast Nat.lt_log2_self.le
  have dividend : 0 < (2 : ℚ) ^ e := zpow_pos two_pos e
  have divisor : 0 < (2 : ℚ) ^ f := zpow_pos two_pos f
  have denominator : 0 < (n : ℚ) * 2 ^ f := mul_pos (by exact_mod_cast other) divisor
  have numerator : 0 < (m : ℚ) * 2 ^ e := mul_pos (by exact_mod_cast some) dividend
  rw [← Int.zpow_le_iff_le_log Nat.one_lt_two (div_pos numerator denominator), Nat.cast_ofNat,
    le_div_iff₀ denominator]
  calc (2 : ℚ) ^ ((m.log2 + e) - (n.log2 + f) - 1) * (n * 2 ^ f)
      ≤ 2 ^ ((m.log2 + e) - (n.log2 + f) - 1) * (2 ^ (n.log2 + 1) * 2 ^ f) := by
        apply mul_le_mul_of_nonneg_left _ (zpow_pos two_pos _).le
        exact mul_le_mul_of_nonneg_right most divisor.le
    _ = 2 ^ m.log2 * 2 ^ e := by
        rw [← zpow_natCast, ← zpow_natCast, ← zpow_add₀ two_ne_zero, ← zpow_add₀ two_ne_zero,
          ← zpow_add₀ two_ne_zero]
        congr 1
        push_cast
        ring
    _ ≤ m * 2 ^ e := mul_le_mul_of_nonneg_right least dividend.le

theorem div_eq :
    div .binary64 (.finite .positive m e some) (.finite .positive n f other) =
      nearest (m * 2 ^ e / (n * 2 ^ f)) := by
  obtain ⟨exponent, taken⟩ : ∃ exponent, exponent =
    min (e - f) (Format.binary64.targetExponent (totalExponent m e - totalExponent n f)) := ⟨_, rfl⟩
  obtain ⟨count, shift⟩ : ∃ count : Nat, e - f - exponent = count :=
    Int.eq_ofNat_of_zero_le (by omega)
  have divided : div .binary64 (.finite .positive m e some) (.finite .positive n f other) =
      roundWithAccuracy .binary64 .positive (m <<< count / n) exponent
        (accuracyOfFraction (m <<< count % n) n) := by
    rw [← Int.toNat_natCast count, ← shift, taken]
    rfl
  have value : (m : ℚ) * 2 ^ e / (n * 2 ^ f) / 2 ^ exponent = (m <<< count : Nat) / n := by
    have power : (2 : ℚ) ^ e = 2 ^ count * (2 ^ f * 2 ^ exponent) := by
      rw [← zpow_natCast, ← zpow_add₀ two_ne_zero, ← zpow_add₀ two_ne_zero]
      congr 1
      omega
    have first : (2 : ℚ) ^ f ≠ 0 := zpow_ne_zero _ two_ne_zero
    have second : (2 : ℚ) ^ exponent ≠ 0 := zpow_ne_zero _ two_ne_zero
    have divisor : (n : ℚ) ≠ 0 := by exact_mod_cast other.ne'
    rw [Nat.shiftLeft_eq, power]
    push_cast
    field_simp
  have positive : 0 < (m : ℚ) * 2 ^ e / (n * 2 ^ f) := by
    have dividend : 0 < (m : ℚ) := by exact_mod_cast some
    have divisor : 0 < (n : ℚ) := by exact_mod_cast other
    positivity
  rw [divided, ← roundWithAccuracy_eq positive]
  · rw [value]
    exact represents_fraction _ other
  · have above := log_div_ge (e := e) (f := f) some other
    simp only [Format.targetExponent, totalExponent, Format.mantissaBits,
      Format.minExponent] at taken
    unfold target
    omega

end Operations

end Tripwire.Binary64
