import Tripwire.Proofs.Number.Reading
import Tripwire.Proofs.Number.Value

/-!
Arithmetic of doubles.  Every operation on doubles stands for the exact result
rounded once, as long as that is not too large for a double.
-/

namespace Tripwire.Binary64

open Float.Model UnpackedFloat

/-! ### Rounding with a sign -/

theorem roundWithAccuracy_withSign (s : Sign) (m : Nat) (e : Int) (accuracy : Accuracy) :
    roundWithAccuracy .binary64 s m e accuracy =
      withSign s (roundWithAccuracy .binary64 .positive m e accuracy) := by
  simp only [roundWithAccuracy]
  split <;> rfl

theorem round_eq (s : Sign) {m : Nat} (some : 0 < m) (e : Int) :
    round .binary64 s m e = withSign s (nearest (m * 2 ^ e)) := by
  obtain ⟨count, shift⟩ :
      ∃ count : Nat, (e - Format.binary64.targetExponent (totalExponent m e)).toNat = count :=
    ⟨_, rfl⟩
  have positive : 0 < (m : ℚ) * 2 ^ e :=
    mul_pos (by exact_mod_cast some) (zpow_pos two_pos e)
  have value : (m : ℚ) * 2 ^ e / 2 ^ (e - count) = (m * 2 ^ count : Nat) := by
    rw [mul_div_assoc, ← zpow_sub₀ two_ne_zero, sub_sub_cancel, zpow_natCast]
    push_cast
    rfl
  simp only [UnpackedFloat.round, decreaseExponent, shift, Nat.shiftLeft_eq]
  rw [roundWithAccuracy_withSign]
  congr 1
  apply roundWithAccuracy_eq positive
  · rw [value]
    exact represents_exact _
  · rw [targetExponent_eq] at shift
    have log : m.log2 + e ≤ Int.log 2 ((m : ℚ) * 2 ^ e) := by
      rw [← Int.zpow_le_iff_le_log Nat.one_lt_two positive, Nat.cast_ofNat,
        zpow_add₀ two_ne_zero, zpow_natCast]
      apply mul_le_mul_of_nonneg_right _ (zpow_pos two_pos e).le
      exact_mod_cast Nat.log2_self_le some.ne'
    unfold target
    omega

theorem denotes_round (s : Sign) {m : Nat} (some : 0 < m) {e : Int}
    (bounded : (m : ℚ) * 2 ^ e < 2 ^ 1023) :
    Denotes (UnpackedFloat.round .binary64 s m e) (rounding (signed s (m * 2 ^ e))) := by
  have natural : 0 ≤ (m : ℚ) * 2 ^ e := mul_nonneg (Nat.cast_nonneg m) (zpow_pos two_pos e).le
  rw [round_eq s some, rounding_signed s natural]
  exact denotes_nearest s natural bounded

theorem denotes_normalize {n : Int} {e : Int} (bounded : |(n : ℚ) * 2 ^ e| < 2 ^ 1023)
    (zeroSign : Sign) :
    Denotes (UnpackedFloat.normalize .binary64 n e zeroSign) (rounding (n * 2 ^ e)) := by
  have unit : (0 : ℚ) < 2 ^ e := zpow_pos two_pos e
  rw [abs_mul, abs_of_pos unit] at bounded
  rcases lt_trichotomy n 0 with negative | rfl | positive
  · have less : compare n 0 = .lt := Int.compare_eq_lt.mpr negative
    have size : ((-n).toNat : ℚ) = -n := by exact_mod_cast Int.toNat_of_nonneg (by omega)
    have value : (n : ℚ) * 2 ^ e = signed .negative ((-n).toNat * 2 ^ e) := by
      rw [size, signed]
      ring
    have below : (n : ℚ) < 0 := by exact_mod_cast negative
    rw [UnpackedFloat.normalize, less, value]
    apply denotes_round .negative (by omega)
    rwa [size, ← abs_of_neg below]
  · rw [Int.cast_zero, zero_mul, rounding_zero]
    exact .zero zeroSign
  · have more : compare n 0 = .gt := Int.compare_eq_gt.mpr positive
    have size : (n.toNat : ℚ) = n := by exact_mod_cast Int.toNat_of_nonneg positive.le
    have above : 0 < (n : ℚ) := by exact_mod_cast positive
    rw [UnpackedFloat.normalize, more, ← size]
    apply denotes_round .positive (by omega)
    rwa [size, ← abs_of_pos above]

/-! ### Operations -/

theorem signed_mul (s t : Sign) (p q : ℚ) : signed (s * t) (p * q) = signed s p * signed t q := by
  cases s <;> cases t
  · exact (neg_mul_neg p q).symm
  · exact (neg_mul p q).symm
  · exact (mul_neg p q).symm
  · rfl

theorem signed_div (s t : Sign) (p q : ℚ) : signed (s / t) (p / q) = signed s p / signed t q := by
  cases s <;> cases t
  · exact (neg_div_neg_eq p q).symm
  · exact (neg_div q p).symm
  · exact (div_neg p).symm
  · rfl

theorem apply_neg (s : Sign) (n : Int) : (-s).apply n = -s.apply n := by
  cases s
  · exact (Int.neg_neg n).symm
  · rfl

theorem decreaseExponent_value (s : Sign) (m : Nat) {e t : Int} (lower : t ≤ e) :
    ((s.apply (decreaseExponent m e t).1 : Int) : ℚ) * 2 ^ t = signed s (m * 2 ^ e) := by
  simp only [decreaseExponent, Nat.shiftLeft_eq]
  rw [scaled_eq m lower]
  cases s with
  | negative => rw [Sign.apply, signed, Int.cast_neg, Int.cast_natCast, neg_mul]
  | positive => rfl

namespace Denotes

variable {u v : UnpackedFloat} {p q : ℚ}

theorem add (first : Denotes u p) (second : Denotes v q) (bounded : |p + q| < 2 ^ 1023) :
    Denotes (UnpackedFloat.add .binary64 u v) (rounding (p + q)) := by
  cases first with
  | zero s =>
    rw [zero_add, second.rounding_eq]
    cases second with
    | zero t => cases s <;> cases t <;> exact .zero _
    | finite t canonical small => exact .finite t canonical small
  | finite s canonical small =>
    have first := Denotes.finite s canonical small
    cases second with
    | zero t =>
      rw [add_zero, first.rounding_eq]
      exact first
    | @finite t n f other =>
      rename_i m e _
      have left := decreaseExponent_value s m (min_le_left e f)
      have right := decreaseExponent_value t n (min_le_right e f)
      rw [← left, ← right, ← add_mul, ← Int.cast_add] at bounded ⊢
      exact denotes_normalize bounded .positive

theorem sub_eq (first : Denotes u p) (second : Denotes v q) :
    UnpackedFloat.sub .binary64 u v = UnpackedFloat.add .binary64 u v.neg := by
  cases first with
  | zero s => cases second <;> rfl
  | finite s canonical small =>
    cases second with
    | zero t => rfl
    | @finite t n f other =>
      rename_i m e _
      let left := s.apply (decreaseExponent m e (min e f)).1
      let right := t.apply (decreaseExponent n f (min e f)).1
      have opposite : (-t).apply (decreaseExponent n f (min e f)).1 = -right := apply_neg t _
      calc UnpackedFloat.normalize .binary64 (left - right) (min e f) .positive
        _ = UnpackedFloat.normalize .binary64 (left + -right) (min e f) .positive := by
          rw [Int.sub_eq_add_neg]
        _ = UnpackedFloat.normalize .binary64
            (left + (-t).apply (decreaseExponent n f (min e f)).1) (min e f) .positive := by
          rw [opposite]

theorem sub (first : Denotes u p) (second : Denotes v q) (bounded : |p - q| < 2 ^ 1023) :
    Denotes (UnpackedFloat.sub .binary64 u v) (rounding (p - q)) := by
  rw [sub_eq_add_neg] at bounded ⊢
  rw [first.sub_eq second]
  exact first.add second.neg bounded

theorem mul (first : Denotes u p) (second : Denotes v q) (bounded : |p * q| < 2 ^ 1023) :
    Denotes (UnpackedFloat.mul .binary64 u v) (rounding (p * q)) := by
  cases first with
  | zero s =>
    rw [zero_mul, rounding_zero]
    cases second <;> exact .zero _
  | @finite s m e canonical small =>
    cases second with
    | zero t =>
      rw [mul_zero, rounding_zero]
      exact .zero _
    | @finite t n f other large =>
      have positive := mul_pos canonical.value_pos other.value_pos
      have fine : e + f ≤ target ((m : ℚ) * 2 ^ e * (n * 2 ^ f)) := by
        rcases canonical.full with full | least
        · exact fine_of_full other.positive full
        rcases other.full with full | lowest
        · rw [add_comm, mul_comm ((m : ℚ) * 2 ^ e)]
          exact fine_of_full canonical.positive full
        · have floor := le_target ((m : ℚ) * 2 ^ e * (n * 2 ^ f))
          omega
      have product : UnpackedFloat.mul .binary64 (.finite s m e canonical.positive)
          (.finite t n f other.positive) =
          Binary64.withSign (s * t) (nearest (m * 2 ^ e * (n * 2 ^ f))) := by
        have sizes : UnpackedFloat.mul .binary64 (.finite .positive m e canonical.positive)
            (.finite .positive n f other.positive) = nearest (m * 2 ^ e * (n * 2 ^ f)) :=
          mul_eq_of_fine fine
        rw [← sizes]
        exact roundWithAccuracy_withSign _ _ _ _
      rw [← signed_mul, abs_signed _ positive.le] at bounded
      rw [product, ← signed_mul, rounding_signed _ positive.le]
      exact denotes_nearest _ positive.le bounded

theorem div (first : Denotes u p) (second : Denotes v q) (some : q ≠ 0)
    (bounded : |p / q| < 2 ^ 1023) :
    Denotes (UnpackedFloat.div .binary64 u v) (rounding (p / q)) := by
  cases second with
  | zero t => exact absurd rfl some
  | @finite t n f other large =>
    cases first with
    | zero s =>
      rw [zero_div, rounding_zero]
      exact .zero _
    | @finite s m e canonical small =>
      have positive := div_pos canonical.value_pos other.value_pos
      have quotient : UnpackedFloat.div .binary64 (.finite s m e canonical.positive)
          (.finite t n f other.positive) =
          Binary64.withSign (s / t) (nearest (m * 2 ^ e / (n * 2 ^ f))) := by
        have sizes : UnpackedFloat.div .binary64 (.finite .positive m e canonical.positive)
            (.finite .positive n f other.positive) = nearest (m * 2 ^ e / (n * 2 ^ f)) := div_eq
        rw [← sizes]
        exact roundWithAccuracy_withSign _ _ _ _
      rw [← signed_div, abs_signed _ positive.le] at bounded
      rw [quotient, ← signed_div, rounding_signed _ positive.le]
      exact denotes_nearest _ positive.le bounded

theorem packed (denotes : Denotes u q) : Denotes (Float.ofModel (.pack u)).toModel.unpack q := by
  change Denotes (Float.Model.pack u).unpack q
  rw [denotes.unpack_pack]
  exact denotes

end Denotes

section Doubles

variable {x y : Float} {p q : ℚ}

theorem denotes_add (first : Denotes x.toModel.unpack p) (second : Denotes y.toModel.unpack q)
    (bounded : |p + q| < 2 ^ 1023) : Denotes (x + y).toModel.unpack (rounding (p + q)) :=
  (first.add second bounded).packed

theorem denotes_sub (first : Denotes x.toModel.unpack p) (second : Denotes y.toModel.unpack q)
    (bounded : |p - q| < 2 ^ 1023) : Denotes (x - y).toModel.unpack (rounding (p - q)) :=
  (first.sub second bounded).packed

theorem denotes_mul (first : Denotes x.toModel.unpack p) (second : Denotes y.toModel.unpack q)
    (bounded : |p * q| < 2 ^ 1023) : Denotes (x * y).toModel.unpack (rounding (p * q)) :=
  (first.mul second bounded).packed

theorem denotes_div (first : Denotes x.toModel.unpack p) (second : Denotes y.toModel.unpack q)
    (some : q ≠ 0) (bounded : |p / q| < 2 ^ 1023) :
    Denotes (x / y).toModel.unpack (rounding (p / q)) :=
  (first.div second some bounded).packed

theorem denotes_neg (denotes : Denotes x.toModel.unpack q) :
    Denotes (-x).toModel.unpack (-q) :=
  denotes.neg.packed

theorem denotes_ofNat {n : Nat} (bounded : (n : ℚ) < 2 ^ 1023) :
    Denotes (Float.ofInt n).toModel.unpack (rounding n) := by
  have natural : (0 : ℚ) ≤ n := Nat.cast_nonneg n
  have read : Float.ofInt n = .ofModel (.pack (nearest n)) := by
    have decimal := Decimal.toFloat_eq ⟨n, 0⟩
    rwa [Decimal.rational, zpow_zero, mul_one] at decimal
  have positive : withSign .positive (nearest n) = nearest n := by
    simp only [nearest]
    split
    · rfl
    · split <;> rfl
  have denotes := denotes_nearest .positive natural bounded
  rw [positive] at denotes
  rw [read, rounding_of_nonneg natural]
  exact denotes.packed

/-- An integer becomes the double nearest to it. -/
theorem denotes_ofInt {n : Int} (bounded : |(n : ℚ)| < 2 ^ 1023) :
    Denotes (Float.ofInt n).toModel.unpack (rounding n) := by
  cases n with
  | ofNat k =>
    have natural : |((k : Int) : ℚ)| = k := by rw [Int.cast_natCast, Nat.abs_cast]
    exact denotes_ofNat (natural ▸ bounded)
  | negSucc k =>
    have opposite : ((Int.negSucc k : Int) : ℚ) = -(k + 1 : Nat) := Int.cast_negSucc k
    rw [opposite, abs_neg, Nat.abs_cast] at bounded
    rw [opposite, rounding_neg]
    exact denotes_neg (denotes_ofNat bounded)

end Doubles

end Tripwire.Binary64
