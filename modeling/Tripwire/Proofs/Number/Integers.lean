import Tripwire.Proofs.Number.Bounds
import Tripwire.Proofs.Number.Operations

/-!
Words as doubles.

A word becomes the double nearest to it.  The words that are `Exact` become
doubles of the same value, among them all of 53 binary digits (`exact_of_fits`).
-/

namespace Tripwire.Binary64

variable {x y : Float} {n : Int64}

theorem natAbs_toInt_le (n : Int64) : n.toInt.natAbs ≤ 2 ^ 63 := by
  have lower := n.le_toInt
  have upper := n.toInt_lt
  omega

theorem abs_toInt_le (n : Int64) : |(n.toInt : ℚ)| ≤ 2 ^ 63 := by
  rw [← Int.cast_abs, ← Nat.cast_natAbs]
  exact_mod_cast natAbs_toInt_le n

/-- A word becomes the double nearest to it. -/
theorem denotes_ofInt64 (n : Int64) :
    Denotes (ofInt64 n).toModel.unpack (rounding n.toInt) :=
  denotes_ofInt ((abs_toInt_le n).trans_lt (pow_lt_pow_right₀ one_lt_two (by decide)))

/-- A word that is the value of some double. -/
def Exact (n : Int64) : Prop := ∃ x, toInt? x = some n.toInt

theorem exact_of_fits (fits : n.toInt.natAbs ≤ 2 ^ 53) : Exact n := by
  refine ⟨ofInt64 n, toInt?_eq_some_iff.mpr ?_⟩
  rw [← rounding_intCast fits]
  exact denotes_ofInt64 n

theorem exact_of_toInt64? (found : toInt64? x = some n) : Exact n :=
  ⟨x, toInt?_eq_some_iff.mpr (toInt64?_eq_some_iff.mp found)⟩

theorem denotes_of_exact (exact : Exact n) : Denotes (ofInt64 n).toModel.unpack n.toInt := by
  obtain ⟨x, found⟩ := exact
  have still := (toInt?_eq_some_iff.mp found).rounding_eq
  have denotes := denotes_ofInt64 n
  rwa [still] at denotes

/-- A word that is a double is equal to just the doubles that yield it. -/
theorem beq_ofInt64_iff (exact : Exact n) : (ofInt64 n == x) = true ↔ toInt64? x = some n := by
  have own := denotes_of_exact exact
  have whole : toInt? (ofInt64 n) = some n.toInt := toInt?_eq_some_iff.mpr own
  rw [toInt64?_eq_some_iff, ← toInt?_eq_some_iff]
  constructor
  · intro equal
    rw [← toInt?_of_beq equal, whole]
  · intro same
    exact (own.beq_iff (toInt?_eq_some_iff.mp same)).mpr rfl

/-- A word that is no double is large, and so is not rounded to zero. -/
theorem unpack_ofInt64_ne_zero (inexact : ¬Exact n) (s : Float.Model.UnpackedFloat.Sign) :
    (ofInt64 n).toModel.unpack ≠ .zero s := by
  intro zero
  have large : 2 ^ 53 < n.toInt.natAbs := not_le.mp (mt exact_of_fits inexact)
  have denotes := denotes_ofInt64 n
  rw [zero] at denotes
  have none : rounding n.toInt = 0 := denotes.unique (.zero s)
  have size : |rounding n.toInt| = near n.toInt.natAbs := by
    rw [abs_rounding, Nat.cast_natAbs, Int.cast_abs]
  have least : (2 : ℚ) ^ 53 ≤ near n.toInt.natAbs := pow_le_near 53 (by exact_mod_cast large.le)
  rw [← size, none, abs_zero] at least
  exact absurd least (by norm_num)

/-- A word that is no double is equal to just the double that it is rounded to. -/
theorem eq_of_beq_ofInt64 (inexact : ¬Exact n) (equal : (ofInt64 n == x) = true) :
    x = ofInt64 n := by
  rcases eq_or_zero_of_beq equal with same | ⟨s, _, zero, _⟩
  · exact (eq_of_unpack same).symm
  · exact absurd zero (unpack_ofInt64_ne_zero inexact s)

theorem beq_ofInt64_of_toInt64? (found : toInt64? x = some n) : (ofInt64 n == x) = true :=
  (beq_ofInt64_iff (exact_of_toInt64? found)).mpr found

/-- A double that a word is equal to yields the word, or is what the word is rounded to. -/
theorem beq_ofInt64_cases (equal : (ofInt64 n == x) = true) :
    toInt64? x = some n ∨ ¬Exact n ∧ x = ofInt64 n := by
  by_cases exact : Exact n
  · exact .inl ((beq_ofInt64_iff exact).mp equal)
  · exact .inr ⟨exact, eq_of_beq_ofInt64 exact equal⟩

theorem compare?_eq_iff : compare? x y = some .eq ↔ (x == y) = true := by
  unfold compare?
  split
  next less =>
    have below : (x.toModel.unpack.compare y.toModel.unpack == some .lt) = true :=
      of_decide_eq_true less
    have notEqual : (x.toModel.unpack.compare y.toModel.unpack == some .eq) = false := by
      rw [eq_of_beq below]
      rfl
    exact ⟨nofun, fun equal => absurd (notEqual.symm.trans equal) Bool.false_ne_true⟩
  next =>
    split
    next equal => exact ⟨fun _ => equal, fun _ => rfl⟩
    next different =>
      refine ⟨fun equal => ?_, fun equal => absurd equal different⟩
      split at equal <;> cases equal

end Tripwire.Binary64
