import Tripwire.Proofs.Number.Parts

/-!
The values of doubles, signs included.

`Denotes` ties an unpacked double to the fraction that it stands for.  A double
that stands for an integer yields it (`toInt?_eq_some_iff`), and doubles are
equal exactly when they stand for the same fraction (`beq_iff`).  `rounding` is
what becomes of a fraction on its way to the nearest double.
-/

namespace Tripwire.Binary64

open Float.Model UnpackedFloat

def signed : Sign → ℚ → ℚ
  | .negative, q => -q
  | .positive, q => q

theorem signed_zero (s : Sign) : signed s 0 = 0 := by
  cases s
  · exact neg_zero
  · rfl

theorem signed_neg (s : Sign) (q : ℚ) : signed (-s) q = -signed s q := by
  cases s
  · exact (neg_neg q).symm
  · rfl

theorem abs_signed (s : Sign) {q : ℚ} (natural : 0 ≤ q) : |signed s q| = q := by
  cases s
  · exact (abs_neg q).trans (abs_of_nonneg natural)
  · exact abs_of_nonneg natural

/-- A number that is no infinity and no NaN stands for a fraction. -/
inductive Denotes : UnpackedFloat → ℚ → Prop
  | zero (s : Sign) : Denotes (.zero s) 0
  | finite (s : Sign) {m : Nat} {e : Int} (canonical : Canonical m e) (bounded : e ≤ 971) :
    Denotes (.finite s m e canonical.positive) (signed s (m * 2 ^ e))

theorem Canonical.value_pos {m : Nat} {e : Int} (canonical : Canonical m e) :
    0 < (m : ℚ) * 2 ^ e := by
  have positive : 0 < (m : ℚ) := by exact_mod_cast canonical.positive
  exact mul_pos positive (zpow_pos two_pos e)

theorem signed_ne_zero (s : Sign) {q : ℚ} (some : q ≠ 0) : signed s q ≠ 0 := by
  cases s
  · exact neg_ne_zero.mpr some
  · exact some

theorem signed_eq_iff {s t : Sign} {p q : ℚ} (first : 0 < p) (second : 0 < q) :
    signed s p = signed t q ↔ s = t ∧ p = q := by
  cases s <;> cases t <;> simp only [signed, neg_inj, true_and, reduceCtorEq, false_and, iff_false]
  · linarith
  · linarith

/-- A value on a finer grid. -/
theorem scaled_eq (m : Nat) {e t : Int} (finer : t ≤ e) :
    (m : ℚ) * 2 ^ e = (m * 2 ^ (e - t).toNat : Nat) * 2 ^ t := by
  obtain ⟨count, shift⟩ := Int.eq_ofNat_of_zero_le (sub_nonneg.mpr finer)
  rw [shift, Int.toNat_natCast, Nat.cast_mul, Nat.cast_pow, Nat.cast_ofNat, mul_assoc,
    ← zpow_natCast, ← zpow_add₀ two_ne_zero]
  congr 2
  omega

/-- A value has only one canonical mantissa and exponent. -/
theorem Canonical.value_inj {m n : Nat} {e f : Int} (first : Canonical m e)
    (second : Canonical n f) : (m : ℚ) * 2 ^ e = n * 2 ^ f ↔ e = f ∧ m = n := by
  constructor
  · intro equal
    have one := nearest_of_near first (by rw [sub_self, abs_zero, zero_mul]; exact first.value_pos)
    have two := nearest_of_near second
      (by rw [sub_self, abs_zero, zero_mul]; exact second.value_pos)
    rw [equal, two] at one
    injection one with _ mantissa exponent
    exact ⟨exponent.symm, mantissa.symm⟩
  · rintro ⟨rfl, rfl⟩
    rfl

theorem beq_finite_iff {s t : Sign} {m n : Nat} {e f : Int} {some : 0 < m} {other : 0 < n} :
    (UnpackedFloat.finite s m e some).beq (.finite t n f other) = true ↔
      s = t ∧ e = f ∧ m = n := by
  cases s <;> cases t <;>
    simp [UnpackedFloat.beq, UnpackedFloat.compare, Ordering.then_eq_eq]

/-! ### Rounding -/

/-- The value of the double nearest to a fraction that is not negative. -/
def near (q : ℚ) : ℚ := roundEven (q / 2 ^ target q) * 2 ^ target q

/-- The value of the double nearest to a fraction, as long as that is not too large. -/
def rounding (q : ℚ) : ℚ := if q < 0 then -near (-q) else near q

def withSign (s : Sign) : UnpackedFloat → UnpackedFloat
  | .zero _ => .zero s
  | .finite _ m e positive => .finite s m e positive
  | other => other

theorem near_zero : near 0 = 0 := by
  have zero : roundEven 0 = 0 := by exact_mod_cast roundEven_natCast 0
  rw [near, zero_div, zero, Nat.cast_zero, zero_mul]

theorem rounding_zero : rounding 0 = 0 := by rw [rounding, if_neg (lt_irrefl 0), near_zero]

theorem rounding_signed (s : Sign) {q : ℚ} (natural : 0 ≤ q) :
    rounding (signed s q) = signed s (near q) := by
  cases s with
  | positive => exact if_neg (not_lt.mpr natural)
  | negative =>
    rcases natural.eq_or_lt with rfl | positive
    · rw [near_zero, signed_zero, rounding_zero]
    · have below : signed .negative q < 0 := neg_neg_of_pos positive
      rw [rounding, if_pos below, signed, neg_neg, signed]

theorem rounding_of_nonneg {q : ℚ} (natural : 0 ≤ q) : rounding q = near q :=
  rounding_signed .positive natural

theorem rounding_neg (q : ℚ) : rounding (-q) = -rounding q := by
  rcases le_total 0 q with natural | negative
  · rw [rounding_of_nonneg natural]
    exact rounding_signed .negative natural
  · have opposite := rounding_signed .negative (neg_nonneg.mpr negative)
    rw [signed, neg_neg, signed] at opposite
    rw [opposite, neg_neg, rounding_of_nonneg (neg_nonneg.mpr negative)]

theorem near_of_nearest {q : ℚ} (positive : 0 < q) {m : Nat} {e : Int} {some : 0 < m}
    (found : nearest q = .finite .positive m e some) : near q = m * 2 ^ e := by
  rw [nearest] at found
  split at found
  · cases found
  · split at found
    · cases found
      rfl
    next large =>
      have carry := Nat.le_antisymm (roundEven_target_le positive) (Nat.not_lt.mp large)
      cases found
      rw [near, carry, zpow_add_one₀ two_ne_zero]
      push_cast
      ring

/-- The nearest double stands for the rounded fraction, unless that is too large. -/
theorem denotes_nearest (s : Sign) {q : ℚ} (natural : 0 ≤ q) (bounded : q < 2 ^ 1023) :
    Denotes (withSign s (nearest q)) (signed s (near q)) := by
  rcases natural.eq_or_lt with rfl | positive
  · rw [nearest_zero, near_zero, signed_zero]
    exact .zero s
  rcases nearest_cases positive with zero | ⟨m, e, canonical, found⟩
  · have none : near q = 0 := by
      rw [nearest] at zero
      split at zero
      next none => rw [near, none, Nat.cast_zero, zero_mul]
      next => split at zero <;> cases zero
    rw [zero, none, signed_zero]
    exact .zero s
  · have exponent : e ≤ 971 := by
      have log : Int.log 2 q < 1023 := by
        rw [← Int.lt_zpow_iff_log_lt Nat.one_lt_two positive]
        exact_mod_cast bounded
      rw [nearest] at found
      split at found
      · cases found
      · have small : target q ≤ 970 := by
          unfold target
          omega
        split at found <;> cases found <;> omega
    rw [found, near_of_nearest positive found]
    exact .finite s canonical exponent

namespace Denotes

variable {u v : UnpackedFloat} {p q : ℚ}

/-- What stands for a fraction survives packing. -/
theorem unpack_pack (denotes : Denotes u q) : (Float.Model.pack u).unpack = u := by
  cases denotes with
  | zero s => cases s <;> rfl
  | finite s canonical bounded => exact Binary64.unpack_pack canonical bounded

theorem neg (denotes : Denotes u q) : Denotes u.neg (-q) := by
  cases denotes with
  | zero s =>
    rw [neg_zero]
    exact .zero (-s)
  | finite s canonical bounded =>
    rw [← signed_neg]
    exact .finite (-s) canonical bounded

/-- What a double stands for is rounded already. -/
theorem rounding_eq (denotes : Denotes u q) : rounding q = q := by
  cases denotes with
  | zero => exact rounding_zero
  | finite s canonical bounded =>
    have positive := canonical.value_pos
    have found := nearest_of_near canonical (by rw [sub_self, abs_zero, zero_mul]; exact positive)
    rw [rounding_signed s positive.le, near_of_nearest positive found]

theorem unique (first : Denotes u p) (second : Denotes u q) : p = q := by
  cases first with
  | zero => cases second; rfl
  | finite => cases second; rfl

/-- Doubles are equal exactly when they stand for the same fraction. -/
theorem beq_iff (first : Denotes u p) (second : Denotes v q) : u.beq v = true ↔ p = q := by
  cases first with
  | zero s =>
    cases second with
    | zero t => exact ⟨fun _ => rfl, fun _ => rfl⟩
    | finite t canonical bounded =>
      have apart := signed_ne_zero t canonical.value_pos.ne'
      cases t <;> exact ⟨nofun, fun equal => absurd equal.symm apart⟩
  | finite s canonical bounded =>
    cases second with
    | zero t =>
      have apart := signed_ne_zero s canonical.value_pos.ne'
      cases s <;> exact ⟨nofun, fun equal => absurd equal apart⟩
    | finite t other small =>
      rw [beq_finite_iff, signed_eq_iff canonical.value_pos other.value_pos,
        canonical.value_inj other]

end Denotes

/-- Equal doubles are the same one or zeros. -/
theorem eq_or_zero_of_beq {u v : UnpackedFloat} (equal : u.beq v = true) :
    u = v ∨ ∃ s t, u = .zero s ∧ v = .zero t := by
  cases u with
  | notANumber => cases equal
  | zero s =>
    cases v with
    | zero t => exact .inr ⟨s, t, rfl, rfl⟩
    | notANumber => cases equal
    | infinity t => cases t <;> cases equal
    | finite t n f other => cases t <;> cases equal
  | infinity s =>
    cases v with
    | infinity t => cases s <;> cases t <;> first | exact .inl rfl | cases equal
    | zero t => cases s <;> cases equal
    | notANumber => cases equal
    | finite t n f other => cases s <;> cases equal
  | finite s m e some =>
    cases v with
    | zero t => cases s <;> cases equal
    | notANumber => cases equal
    | infinity t => cases t <;> cases equal
    | finite t n f other =>
      obtain ⟨rfl, rfl, rfl⟩ := beq_finite_iff.mp equal
      exact .inl rfl

/-! ### Doubles -/

namespace Dyadic

/-- The value of the parts. -/
def value (d : Dyadic) : ℚ := signed d.sign d.rational

theorem toInt?_eq (d : Dyadic) : d.toInt? =
    if d.magnitude.1 % d.magnitude.2 = 0 then
      some (d.sign.apply (d.magnitude.1 / d.magnitude.2 : Nat))
    else none := by
  unfold toInt? sign
  cases d.negative <;> rfl

theorem signed_natCast (s : Sign) (n : Nat) : signed s n = (s.apply n : Int) := by
  cases s
  · exact (Int.cast_neg _).symm
  · rfl

/-- The parts are an integer exactly when their value is one. -/
theorem toInt?_eq_some_iff_value (d : Dyadic) (n : Int) : d.toInt? = some n ↔ d.value = n := by
  have divisor : (d.magnitude.2 : ℚ) ≠ 0 := by exact_mod_cast d.denominator_pos.ne'
  have fraction := d.magnitude_div
  rw [toInt?_eq]
  split
  next exact =>
    have whole : d.rational = (d.magnitude.1 / d.magnitude.2 : Nat) := by
      rw [← fraction, Nat.cast_div (Nat.dvd_of_mod_eq_zero exact) divisor]
    rw [Option.some.injEq, value, whole, signed_natCast, Int.cast_inj]
  next broken =>
    refine ⟨nofun, fun whole => absurd ?_ broken⟩
    have natural : 0 ≤ d.rational := by
      rw [← fraction]
      positivity
    have size : d.rational = n.natAbs := by
      rw [Nat.cast_natAbs, Int.cast_abs, ← whole, value, abs_signed _ natural]
    rw [← fraction, div_eq_iff divisor] at size
    have product : d.magnitude.1 = n.natAbs * d.magnitude.2 := by exact_mod_cast size
    rw [product, Nat.mul_mod_left]

end Dyadic

variable {x y : Float}

theorem denotes_of_dyadic? {d : Dyadic} (finite : dyadic? x = some d) :
    Denotes x.toModel.unpack d.value := by
  unfold dyadic? at finite
  split at finite
  next sign found =>
    cases finite
    rw [found]
    have zero : (⟨sign == .negative, 0, 0⟩ : Dyadic).value = 0 := by
      rw [Dyadic.value, Dyadic.rational, Nat.cast_zero, zero_mul, signed_zero]
    rw [zero]
    exact .zero sign
  next sign mantissa exponent some found =>
    cases finite
    obtain ⟨canonical, bounded⟩ := canonical_of_unpack found
    rw [found]
    cases sign
    · exact .finite .negative canonical bounded
    · exact .finite .positive canonical bounded
  next => cases finite

theorem dyadic?_of_denotes {q : ℚ} (denotes : Denotes x.toModel.unpack q) :
    ∃ d, dyadic? x = some d ∧ d.value = q := by
  unfold dyadic?
  revert denotes
  generalize x.toModel.unpack = u
  rintro (s | ⟨s, canonical, bounded⟩)
  · refine ⟨_, rfl, ?_⟩
    rw [Dyadic.value, Dyadic.rational, Nat.cast_zero, zero_mul, signed_zero]
  · cases s <;> exact ⟨_, rfl, rfl⟩

/-- A double yields an integer exactly when it stands for it. -/
theorem toInt?_eq_some_iff {n : Int} : toInt? x = some n ↔ Denotes x.toModel.unpack n := by
  constructor
  · intro found
    obtain ⟨d, finite, whole⟩ := Option.bind_eq_some_iff.mp found
    rw [← (d.toInt?_eq_some_iff_value n).mp whole]
    exact denotes_of_dyadic? finite
  · intro denotes
    obtain ⟨d, finite, value⟩ := dyadic?_of_denotes denotes
    rw [toInt?, finite]
    exact (d.toInt?_eq_some_iff_value n).mpr value

theorem toInt64?_eq_some_iff {n : Int64} :
    toInt64? x = some n ↔ Denotes x.toModel.unpack n.toInt := by
  rw [← toInt?_eq_some_iff, toInt64?, Option.bind_eq_some_iff]
  constructor
  · rintro ⟨whole, found, narrow⟩
    rw [found, Integer.narrow?_eq_some_iff.mp narrow]
  · intro found
    exact ⟨n.toInt, found, Integer.narrow?_toInt n⟩

theorem eq_of_unpack (same : x.toModel.unpack = y.toModel.unpack) : x = y := by
  rw [← pack_unpack_toModel x, same, pack_unpack_toModel]

theorem number_of_beq (equal : (x == y) = true) : x.toModel.unpack ≠ .notANumber := by
  intro nan
  have compared : x.toModel.unpack.beq y.toModel.unpack = true := equal
  rw [nan] at compared
  cases compared

/-- Equal doubles yield the same integer, if any. -/
theorem beq_symm (equal : (x == y) = true) : (y == x) = true := by
  rcases eq_or_zero_of_beq equal with same | ⟨s, t, first, second⟩
  · cases eq_of_unpack same
    exact equal
  · change y.toModel.unpack.beq x.toModel.unpack = true
    rw [first, second]
    rfl

theorem toInt?_of_beq (equal : (x == y) = true) : toInt? x = toInt? y := by
  rcases eq_or_zero_of_beq equal with same | ⟨s, t, first, second⟩
  · rw [eq_of_unpack same]
  · have zero (s : Sign) {x : Float} (unpacked : x.toModel.unpack = .zero s) :
        toInt? x = some 0 := by
      rw [toInt?_eq_some_iff, unpacked]
      exact_mod_cast Denotes.zero s
    rw [zero s first, zero t second]

end Tripwire.Binary64
