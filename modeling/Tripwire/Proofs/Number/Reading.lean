import Tripwire.Number.Decimal
import Tripwire.Proofs.Number.Parts
import Tripwire.Proofs.Number.Rounding

/-!
A decimal is read as the double nearest to its value, whichever way the
arithmetic goes.
-/

namespace Tripwire.Decimal

open Binary64 Float.Model UnpackedFloat

def rational (d : Decimal) : ℚ := d.digits * 10 ^ d.exponent

section Whole

variable {n count : Nat}

/-- A natural number of at most 53 binary digits can be filled up to 53. -/
theorem exists_fill (positive : 0 < n) (fits : n < 2 ^ 53) :
    ∃ count, n.log2 + count = 52 ∧ 2 ^ 52 ≤ n * 2 ^ count ∧ n * 2 ^ count < 2 ^ 53 := by
  have small := (Nat.log2_lt positive.ne').mpr fits
  refine ⟨52 - n.log2, by omega, ?_, ?_⟩
  · have power : 2 ^ 52 = 2 ^ n.log2 * 2 ^ (52 - n.log2) := by
      rw [← Nat.pow_add]
      congr 1
      omega
    rw [power]
    exact Nat.mul_le_mul_right _ (Nat.log2_self_le positive.ne')
  · have power : 2 ^ 53 = 2 ^ (n.log2 + 1) * 2 ^ (52 - n.log2) := by
      rw [← Nat.pow_add]
      congr 1
      omega
    rw [power]
    exact Nat.mul_lt_mul_of_pos_right Nat.lt_log2_self (Nat.two_pow_pos _)

theorem ofNat_eq_round (positive : 0 < n) (digits : n.log2 + count = 52) :
    UnpackedFloat.ofNat .binary64 n =
      roundWithAccuracy .binary64 .positive (n * 2 ^ count) (-count) .exact := by
  have order : compare (n : Int) 0 = .gt := Int.compare_eq_gt.mpr (by omega)
  have target : (-Format.binary64.targetExponent (totalExponent n 0)).toNat = count := by
    rw [targetExponent_eq]
    omega
  rw [UnpackedFloat.ofNat, UnpackedFloat.ofInt, UnpackedFloat.normalize, order]
  simp only [UnpackedFloat.round, decreaseExponent, Int.toNat_natCast, Int.zero_sub, target,
    Nat.shiftLeft_eq]

theorem fill_value (n count : Nat) : ((n * 2 ^ count : Nat) : ℚ) * 2 ^ (-count : Int) = n := by
  rw [zpow_neg, zpow_natCast]
  push_cast
  field_simp

/-- A natural number of at most 53 binary digits is an exact double with a full mantissa. -/
theorem unpack_toFloat (positive : 0 < n) (fits : n < 2 ^ 53) :
    ∃ m e, ∃ some : 0 < m, n.toUInt64.toFloat.toModel.unpack = .finite .positive m e some ∧
      2 ^ 52 ≤ m ∧ (m : ℚ) * 2 ^ e = n := by
  obtain ⟨count, digits, full, small⟩ := exists_fill positive fits
  have canonical : Canonical (n * 2 ^ count) (-count) := ⟨by omega, small, by omega, .inl full⟩
  have value := fill_value n count
  have near : |(n : ℚ) - (n * 2 ^ count : Nat) * 2 ^ (-count : Int)| * 2 ^ 54 <
      (n * 2 ^ count : Nat) * 2 ^ (-count : Int) := by
    rw [value, sub_self, abs_zero, zero_mul]
    exact_mod_cast positive
  have exact : nearest n = .finite .positive (n * 2 ^ count) (-count) canonical.positive :=
    nearest_of_near canonical near
  have rounded : UnpackedFloat.ofNat .binary64 n = nearest n := by
    rw [ofNat_eq_round positive digits]
    apply roundWithAccuracy_eq (by exact_mod_cast positive)
    · rw [← value, mul_div_cancel_right₀ _ (zpow_ne_zero _ two_ne_zero)]
      exact represents_exact _
    · unfold target
      rw [Int.log_natCast, ← Nat.log2_eq_log_two]
      omega
  refine ⟨n * 2 ^ count, -count, canonical.positive, ?_, full, value⟩
  have same : n.toUInt64.toNat = n := by
    rw [Nat.toUInt64, UInt64.toNat_ofNat']
    omega
  have model : n.toUInt64.toFloat.toModel =
      Float.Model.pack (UnpackedFloat.ofNat .binary64 n.toUInt64.toNat) := rfl
  rw [model, same, rounded, exact]
  exact unpack_pack canonical (by omega)

end Whole

section Powers

variable {e : Nat} (inside : e < Float.exactlyRepresentablePowersOfTen.size)

theorem parts_power : ∀ place : Fin 23,
    (dyadic? Float.exactlyRepresentablePowersOfTen[place]).map (fun d => (d.negative, d.toInt?)) =
      some (false, some (10 ^ place.val)) := by
  decide +kernel

/-- The powers of ten in the table are exact. -/
theorem unpack_power : ∃ m f, ∃ some : 0 < m,
    Float.exactlyRepresentablePowersOfTen[e].toModel.unpack = .finite .positive m f some ∧
      (m : ℚ) * 2 ^ f = 10 ^ e := by
  obtain ⟨d, finite, parts⟩ := Option.map_eq_some_iff.mp (parts_power ⟨e, inside⟩)
  obtain ⟨positive, whole⟩ := Prod.mk.inj parts
  have value : d.rational = (10 ^ e : Nat) :=
    (d.toInt?_eq_some_iff positive).mp (by exact_mod_cast whole)
  push_cast at value
  rcases parts_cases finite positive with ⟨_, rfl⟩ | ⟨canonical, _, unpacked, _⟩
  · rw [Dyadic.rational, Nat.cast_zero, zero_mul] at value
    exact absurd value.symm (by positivity)
  · exact ⟨d.mantissa, d.exponent, canonical.positive, unpacked, value⟩

end Powers

theorem mul_toModel (x y : Float) : x * y =
    .ofModel (.pack (UnpackedFloat.mul .binary64 x.toModel.unpack y.toModel.unpack)) := rfl

theorem div_toModel (x y : Float) : x / y =
    .ofModel (.pack (UnpackedFloat.div .binary64 x.toModel.unpack y.toModel.unpack)) := rfl

section Ways

variable {n e : Nat}

/-- The fast way multiplies or divides an exact number by an exact power of ten. -/
theorem ofScientific_of_exact (inside : n < 2 ^ 53 ∧ e ≤ 22) (positive : 0 < n) (small : Bool) :
    Float.ofScientific n small e =
      .ofModel (.pack (nearest (if small then n / 10 ^ e else n * 10 ^ e))) := by
  have listed : e < Float.exactlyRepresentablePowersOfTen.size := Nat.lt_succ_of_le inside.2
  obtain ⟨m, f, some, unpacked, full, value⟩ := unpack_toFloat positive inside.1
  obtain ⟨k, g, other, power, exact⟩ := unpack_power listed
  rw [Float.ofScientific, dif_pos inside]
  cases small with
  | true =>
    simp only [if_true]
    rw [div_toModel, unpacked, power, div_eq, value, exact]
  | false =>
    simp only [Bool.false_eq_true, if_false]
    rw [mul_toModel, unpacked, power, mul_eq full, value, exact]

theorem ofScientific_zero (small : Bool) (e : Nat) :
    Float.ofScientific 0 small e = .ofModel (.pack (.zero .positive)) := by
  have unpacked : (0 : Nat).toUInt64.toFloat.toModel.unpack = .zero .positive := rfl
  rw [Float.ofScientific]
  split
  next inside =>
    have listed : e < Float.exactlyRepresentablePowersOfTen.size := Nat.lt_succ_of_le inside.2
    obtain ⟨k, g, other, power, exact⟩ := unpack_power listed
    cases small with
    | true =>
      simp only [if_true]
      rw [div_toModel, unpacked, power]
      rfl
    | false =>
      simp only [Bool.false_eq_true, if_false]
      rw [mul_toModel, unpacked, power]
      rfl
  next => rfl

theorem pack_nearest_of_large {q : ℚ} (positive : 0 < q) (large : 971 < target q) :
    Float.Model.pack (nearest q) = .pack (.infinity .positive) := by
  rcases nearest_cases positive with zero | ⟨m, f, canonical, found⟩
  · have some := le_roundEven_target positive (by omega)
    rw [nearest, dif_neg (by omega)] at zero
    split at zero <;> cases zero
  · have exponent := exponent_of_nearest found
    rw [found, pack_infinity (lt_of_lt_of_le large exponent)]

theorem nearest_of_small {q : ℚ} (positive : 0 < q) (small : q < 2 ^ (-1075 : Int)) :
    nearest q = .zero .positive := by
  have exponent : target q = -1074 := by
    apply target_eq positive (Int.le_refl _) (.inr rfl)
    exact small.trans (zpow_lt_zpow_right₀ one_lt_two (by decide))
  have half : (2 : ℚ) ^ (-1074 : Int) / 2 = 2 ^ (-1075 : Int) := (zpow_sub_one₀ two_ne_zero _).symm
  have zero : roundEven (q / 2 ^ target q) = 0 := by
    rw [exponent]
    have unit : 0 < (2 : ℚ) ^ (-1074 : Int) := zpow_pos two_pos _
    apply roundEven_div_of_near positive.le unit <;> rw [half, Nat.cast_zero, zero_mul]
    · positivity
    · rwa [zero_add]
  rw [nearest, dif_pos zero]

theorem large_of_exponent {e : Int} (positive : 0 < n) (large : 2048 < e) :
    971 < target ((n : ℚ) * 10 ^ e) := by
  have some : (1 : ℚ) ≤ n := by exact_mod_cast positive
  have power : 0 < (10 : ℚ) ^ e := zpow_pos (by norm_num) e
  have above : (2 : ℚ) ^ (1024 : Int) ≤ n * 10 ^ e :=
    calc (2 : ℚ) ^ (1024 : Int) ≤ 2 ^ e := zpow_le_zpow_right₀ one_le_two (by omega)
      _ ≤ 10 ^ e := zpow_le_zpow_left₀ (by omega) (by norm_num) (by norm_num)
      _ ≤ n * 10 ^ e := le_mul_of_one_le_left power.le some
  have log := (Int.zpow_le_iff_le_log Nat.one_lt_two (by positivity)).mp above
  unfold target
  omega

theorem small_of_exponent {e : Int} (positive : 0 < n) (small : e < -(2048 + n.log2)) :
    (n : ℚ) * 10 ^ e < 2 ^ (-1075 : Int) := by
  obtain ⟨k, opposite⟩ : ∃ k : Nat, -e = k := Int.eq_ofNat_of_zero_le (by omega)
  obtain rfl : e = -k := by omega
  have most : (n : ℚ) < 2 ^ (n.log2 + 1) := by exact_mod_cast Nat.lt_log2_self
  have unit : 0 < (2 : ℚ) ^ (-k : Int) := zpow_pos two_pos _
  have power : (10 : ℚ) ^ (-k : Int) ≤ 2 ^ (-k : Int) := by
    rw [zpow_neg, zpow_neg, zpow_natCast, zpow_natCast]
    apply inv_anti₀ (by positivity)
    exact pow_le_pow_left₀ (by norm_num) (by norm_num) k
  calc (n : ℚ) * 10 ^ (-k : Int) ≤ n * 2 ^ (-k : Int) := by gcongr
    _ < 2 ^ (n.log2 + 1) * 2 ^ (-k : Int) := mul_lt_mul_of_pos_right most unit
    _ = 2 ^ ((n.log2 + 1 : Nat) - k : Int) := by
        rw [← zpow_natCast, ← zpow_add₀ two_ne_zero, sub_eq_add_neg]
    _ ≤ 2 ^ (-1075 : Int) := zpow_le_zpow_right₀ one_le_two (by omega)

/-- The slow way is exact too, up to its one rounding. -/
theorem model_ofScientific_eq (positive : 0 < n) (e : Int) :
    Float.Model.ofScientific n e = .pack (nearest (n * 10 ^ e)) := by
  have value : 0 < (n : ℚ) * 10 ^ e := by
    have some : 0 < (n : ℚ) := by exact_mod_cast positive
    positivity
  rw [Float.Model.ofScientific, UnpackedFloat.ofScientific, dif_neg positive.ne']
  split
  next large => rw [pack_nearest_of_large value (large_of_exponent positive large)]
  next =>
    split
    next small => rw [nearest_of_small value (small_of_exponent positive small)]
    next =>
      split
      next natural =>
        obtain ⟨k, rfl⟩ := Int.eq_ofNat_of_zero_le natural
        have full : 2 ^ 52 ≤ n <<< 53 := by
          rw [Nat.shiftLeft_eq]
          omega
        have shifted : ((n <<< 53 : Nat) : ℚ) * 2 ^ (-53 : Int) = n := by
          rw [Nat.shiftLeft_eq]
          exact fill_value n 53
        have exact : ((n <<< 53 : Nat) : ℚ) * 2 ^ (-53 : Int) *
            ((10 ^ k : Nat) * 2 ^ (0 : Int)) = n * 10 ^ (k : Int) := by
          rw [shifted, zpow_zero, mul_one, zpow_natCast]
          push_cast
          rfl
        rw [← exact]
        exact congrArg Float.Model.pack (mul_eq full)
      next negative =>
        obtain ⟨k, opposite⟩ : ∃ k : Nat, -e = k := Int.eq_ofNat_of_zero_le (by omega)
        obtain rfl : e = -k := by omega
        have exact : (n : ℚ) * 2 ^ (0 : Int) / ((10 ^ k : Nat) * 2 ^ (0 : Int)) =
            n * 10 ^ (-k : Int) := by
          rw [zpow_zero, mul_one, mul_one, zpow_neg, zpow_natCast]
          push_cast
          rfl
        rw [div_eq, neg_neg, Int.toNat_natCast, exact]

end Ways

theorem scale_eq (n : Nat) (e : Int) :
    (if decide (e < 0) then (n : ℚ) / 10 ^ e.natAbs else n * 10 ^ e.natAbs) = n * 10 ^ e := by
  cases e with
  | ofNat k =>
    rw [if_neg (by simp), Int.ofNat_eq_natCast, zpow_natCast]
    rfl
  | negSucc k =>
    rw [if_pos (by simp), zpow_negSucc, div_eq_mul_inv]
    rfl

theorem signed_natAbs (e : Int) :
    (if decide (e < 0) then Int.negOfNat e.natAbs else Int.ofNat e.natAbs) = e := by
  cases e with
  | ofNat k => rfl
  | negSucc k =>
    rw [if_pos (by simp)]
    rfl

/-- A decimal is read as the double nearest to its value. -/
theorem toFloat_eq (d : Decimal) : d.toFloat = .ofModel (.pack (nearest d.rational)) := by
  obtain ⟨n, e⟩ := d
  unfold toFloat rational
  by_cases zero : n = 0
  · subst zero
    simp only [Nat.cast_zero, zero_mul]
    rw [ofScientific_zero, nearest_zero]
  · have positive := Nat.pos_of_ne_zero zero
    by_cases inside : n < 2 ^ 53 ∧ e.natAbs ≤ 22
    · rw [ofScientific_of_exact inside positive, scale_eq]
    · rw [Float.ofScientific, dif_neg inside, ← model_ofScientific_eq positive]
      simp only [signed_natAbs]

/-- Decimals of one value are read as one double. -/
theorem toFloat_congr {first second : Decimal} (same : first.rational = second.rational) :
    first.toFloat = second.toFloat := by
  rw [toFloat_eq, toFloat_eq, same]

end Tripwire.Decimal
