import Tripwire.Proofs.Number.Packing

/-!
The exact parts of a finite double that is not negative, and their value.
-/

namespace Tripwire.Binary64

open Float.Model

namespace Dyadic

variable {d : Dyadic}

/-- The value of the parts without the sign. -/
def rational (d : Dyadic) : ℚ := d.mantissa * 2 ^ d.exponent

theorem denominator_pos (d : Dyadic) : 0 < d.magnitude.2 := by
  unfold magnitude
  rw [Nat.one_shiftLeft]
  exact Nat.two_pow_pos _

theorem magnitude_div (d : Dyadic) : (d.magnitude.1 : ℚ) / d.magnitude.2 = d.rational := by
  unfold magnitude rational
  rw [Nat.one_shiftLeft, Nat.shiftLeft_eq]
  push_cast
  rw [mul_div_assoc, ← zpow_natCast, ← zpow_natCast, ← zpow_sub₀ two_ne_zero]
  congr 2
  omega

/-- Parts whose value is no natural number are not zero. -/
theorem mantissa_pos_of_broken (broken : ∀ n : Nat, d.rational ≠ n) : 0 < d.mantissa := by
  apply Nat.pos_of_ne_zero
  intro zero
  apply broken 0
  rw [rational, zero, Nat.cast_zero, zero_mul]

theorem toInt?_of_positive (positive : d.negative = false) : d.toInt? =
    if d.magnitude.1 % d.magnitude.2 = 0 then some ((d.magnitude.1 / d.magnitude.2 : Nat) : Int)
    else none := by
  unfold toInt?
  rw [positive]
  rfl

/-- The parts are an integer exactly when their value is one. -/
theorem toInt?_eq_some_iff (positive : d.negative = false) {n : Nat} :
    d.toInt? = some (n : Int) ↔ d.rational = n := by
  have divisor := denominator_pos d
  rw [← magnitude_div, div_eq_iff (by exact_mod_cast divisor.ne'), toInt?_of_positive positive]
  norm_cast
  constructor
  · intro found
    split at found
    next exact =>
      rw [Option.some.injEq, Int.natCast_inj] at found
      rw [← found, Nat.div_mul_cancel (Nat.dvd_of_mod_eq_zero exact)]
    next => cases found
  · intro equal
    rw [equal, if_pos (Nat.mul_mod_left _ _), Nat.mul_div_cancel _ divisor]

theorem toInt?_eq_none (positive : d.negative = false) (broken : ∀ n : Nat, d.rational ≠ n) :
    d.toInt? = none := by
  cases found : d.toInt? with
  | none => rfl
  | some whole =>
    have unfolded := toInt?_of_positive positive
    rw [found] at unfolded
    split at unfolded
    next =>
      rw [Option.some.injEq] at unfolded
      subst unfolded
      exact absurd ((toInt?_eq_some_iff positive).mp found) (broken _)
    next => exact unfolded

end Dyadic

variable {x : Float} {d : Dyadic}

/-- The parts of a double that is not negative are canonical and pack to it, unless it is zero. -/
theorem parts_cases (finite : dyadic? x = some d) (positive : d.negative = false) :
    x = .ofModel (.pack (.zero .positive)) ∧ d = ⟨false, 0, 0⟩ ∨
      ∃ canonical : Canonical d.mantissa d.exponent, d.exponent ≤ 971 ∧
        x.toModel.unpack = .finite .positive d.mantissa d.exponent canonical.positive ∧
        x = .ofModel (.pack (.finite .positive d.mantissa d.exponent canonical.positive)) := by
  have packed := pack_unpack_toModel x
  unfold dyadic? at finite
  split at finite
  next sign found =>
    cases finite
    cases sign with
    | negative => cases positive
    | positive => exact .inl ⟨by rw [← found, packed], rfl⟩
  next sign mantissa exponent some found =>
    cases finite
    cases sign with
    | negative => cases positive
    | positive =>
      obtain ⟨canonical, bounded⟩ := canonical_of_unpack found
      exact .inr ⟨canonical, bounded, found, by rw [← found, packed]⟩
  next => cases finite

theorem rational_zero : (⟨false, 0, 0⟩ : Dyadic).rational = 0 := by
  rw [Dyadic.rational, Nat.cast_zero, zero_mul]

/-- A finite double is nearest to what is within a quarter of its last place. -/
theorem nearest_of_parts (finite : dyadic? x = some d) (positive : d.negative = false) {q : ℚ}
    (near : |q - d.rational| * 2 ^ 54 < d.rational) : .ofModel (.pack (nearest q)) = x := by
  rcases parts_cases finite positive with ⟨_, rfl⟩ | ⟨canonical, _, _, packed⟩
  · rw [rational_zero] at near
    exact absurd near (not_lt.mpr (by positivity))
  · rw [nearest_of_near canonical near, ← packed]

/-- A finite double is nearest to its own value. -/
theorem nearest_rational (finite : dyadic? x = some d) (positive : d.negative = false) :
    .ofModel (.pack (nearest d.rational)) = x := by
  rcases parts_cases finite positive with ⟨packed, rfl⟩ | ⟨canonical, _⟩
  · rw [rational_zero, nearest_zero, packed]
  · apply nearest_of_parts finite positive
    rw [sub_self, abs_zero, zero_mul]
    have some : 0 < (d.mantissa : ℚ) := by exact_mod_cast canonical.positive
    exact mul_pos some (zpow_pos two_pos _)

/-- A double that is nearest to a natural number is a natural number. -/
theorem whole_of_nearest (finite : dyadic? x = some d) (positive : d.negative = false) {n : Nat}
    (reads : .ofModel (.pack (nearest n)) = x) : ∃ k : Nat, d.rational = k := by
  rcases parts_cases finite positive with ⟨_, rfl⟩ | ⟨_, _, unpacked, _⟩
  · exact ⟨0, by rw [rational_zero, Nat.cast_zero]⟩
  rw [← reads] at unpacked
  by_cases zero : n = 0
  · rw [zero, Nat.cast_zero, nearest_zero] at unpacked
    cases unpacked
  have some := Nat.pos_of_ne_zero zero
  rcases nearest_cases (q := n) (by exact_mod_cast some) with none | ⟨m, e, canonical, found⟩
  · rw [none] at unpacked
    cases unpacked
  · rw [found] at unpacked
    by_cases bounded : e ≤ 971
    · rw [unpack_pack canonical bounded] at unpacked
      injection unpacked with _ mantissa exponent
      rw [Dyadic.rational, ← mantissa, ← exponent]
      exact nearest_natCast_whole some found
    · have infinite : Float.Model.pack (.finite .positive m e canonical.positive) =
          .pack (.infinity .positive) := pack_infinity (not_le.mp bounded)
      rw [infinite] at unpacked
      cases unpacked

end Tripwire.Binary64
