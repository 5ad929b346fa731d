import Tripwire.Number.Layout
import Tripwire.Proofs.Number.Digits
import Tripwire.Proofs.Number.Shortest

/-!
The text of a finite double that is not negative is read back as that double.
-/

namespace Tripwire

namespace Decimal

/-- The characters are digits, a point and digits, and spell the decimal. -/
structure Points (d : Decimal) (whole fraction : List Char) : Prop where
  filled : whole ≠ []
  digits : ∀ c ∈ whole, c.isDigit = true
  filledFraction : fraction ≠ []
  fractionDigits : ∀ c ∈ fraction, c.isDigit = true
  value : value (whole ++ fraction) = d.digits
  places : -(fraction.length : Int) = d.exponent

theorem points_whole (n : Nat) : Points ⟨10 * n, -1⟩ (Nat.toDigits 10 n) ['0'] where
  filled := Nat.toDigits_ne_nil
  digits c := isDigit_of_mem_toDigits
  filledFraction := List.cons_ne_nil _ _
  fractionDigits c member := by
    rw [List.mem_singleton.mp member]
    rfl
  value := by
    rw [value_append, value_toDigits]
    rfl
  places := rfl

variable {d : Decimal}

theorem rational_step {n : Nat} {e : Int} (round : n % 10 = 0) :
    rational ⟨n / 10, e + 1⟩ = rational ⟨n, e⟩ := by
  have split : (n : ℚ) = (n / 10 : Nat) * 10 := by
    exact_mod_cast (Nat.div_mul_cancel (Nat.dvd_of_mod_eq_zero round)).symm
  simp only [rational]
  rw [split, zpow_add_one₀ (by norm_num)]
  ring

theorem rational_stripZeros (fuel : Nat) :
    ∀ d : Decimal, (stripZeros fuel d).rational = d.rational := by
  induction fuel with
  | zero => exact fun d => rfl
  | succ fuel ih =>
    intro d
    rw [stripZeros]
    split
    next round => rw [ih, rational_step round.2]
    next => rfl

theorem rational_normalize (d : Decimal) : d.normalize.rational = d.rational :=
  rational_stripZeros _ d

theorem value_replicate_append (count : Nat) (digits : List Char) :
    value (List.replicate count '0' ++ digits) = value digits := by
  rw [value_append, value_replicate_zero, Nat.mul_zero, Nat.zero_add]

/-- Digits with the point within or before them spell the decimal. -/
theorem points_positional (layout : Layout) (n : Nat) {e : Int} (negative : e < 0) :
    ∃ whole fraction, layout.positionalText (Nat.toDigits 10 n) ((Nat.toDigits 10 n).length + e) =
      whole ++ '.' :: fraction ∧ Points ⟨n, e⟩ whole fraction := by
  obtain ⟨digits, same⟩ : ∃ digits, Nat.toDigits 10 n = digits := ⟨_, rfl⟩
  have value : value digits = n := same ▸ value_toDigits n
  have filled : 0 < digits.length := same ▸ Nat.length_toDigits_pos
  have decimal : ∀ c ∈ digits, c.isDigit = true := fun c member =>
    isDigit_of_mem_toDigits (same ▸ member)
  rw [same]
  unfold Layout.positionalText
  by_cases before : digits.length + e ≤ 0
  · rw [if_pos before]
    obtain ⟨count, zeros⟩ := Int.eq_ofNat_of_zero_le (neg_nonneg.mpr before)
    refine ⟨['0'], List.replicate count '0' ++ digits, ?_, List.cons_ne_nil _ _, ?_, ?_, ?_, ?_, ?_⟩
    · rw [Layout.zeros, zeros]
      rfl
    · intro c member
      rw [List.mem_singleton.mp member]
      rfl
    · exact List.append_ne_nil_of_right_ne_nil _ (List.ne_nil_of_length_pos filled)
    · intro c member
      rcases List.mem_append.mp member with zero | digit
      · rw [(List.mem_replicate.mp zero).2]
        rfl
      · exact decimal c digit
    · rw [← List.append_assoc, ← List.replicate_one, ← List.replicate_add,
        value_replicate_append, value]
    · rw [List.length_append, List.length_replicate]
      push_cast
      omega
  · obtain ⟨place, position⟩ := Int.eq_ofNat_of_zero_le (not_le.mp before).le
    rw [if_neg before, if_neg (by omega), position, Int.toNat_natCast]
    refine ⟨digits.take place, digits.drop place, rfl, ?_, ?_, ?_, ?_, ?_, ?_⟩
    · apply List.ne_nil_of_length_pos
      rw [List.length_take]
      omega
    · exact fun c member => decimal c (List.mem_of_mem_take member)
    · apply List.ne_nil_of_length_pos
      rw [List.length_drop]
      omega
    · exact fun c member => decimal c (List.mem_of_mem_drop member)
    · rw [List.take_append_drop, value]
    · rw [List.length_drop]
      dsimp only
      omega

end Decimal

namespace Float

open Binary64

variable {x : Float} {d : Binary64.Dyadic}

theorem valueText_of_whole (finite : dyadic? x = some d) (positive : d.negative = false) {n : Nat}
    (whole : d.rational = n) : (valueText x).toList = Nat.toDigits 10 n ++ ['.', '0'] := by
  unfold valueText
  rw [finite]
  simp only [(d.toInt?_eq_some_iff positive).mpr whole, positive]
  rw [String.toList_append, String.toList_append, Int.natAbs_natCast]
  exact congrArg (· ++ ['.', '0']) Nat.toList_repr

theorem valueText_of_broken (finite : dyadic? x = some d) (positive : d.negative = false)
    (broken : ∀ n : Nat, d.rational ≠ n) :
    (valueText x).toList = Layout.plain.decimalText (.shortest .up x) := by
  have some : d.mantissa ≠ 0 := (Dyadic.mantissa_pos_of_broken broken).ne'
  unfold valueText
  rw [finite]
  simp only [d.toInt?_eq_none positive broken]
  rw [Layout.text, finite]
  simp only [positive, some, if_false, Bool.false_eq_true, String.toList_ofList]
  rfl

/-- A decimal that is read as a broken number has digits after the point. -/
theorem exponent_neg_of_reads (finite : dyadic? x = some d) (positive : d.negative = false)
    (broken : ∀ n : Nat, d.rational ≠ n) {decimal : Decimal} (reads : decimal.toFloat = x) :
    decimal.exponent < 0 := by
  by_contra whole
  obtain ⟨power, same⟩ := Int.eq_ofNat_of_zero_le (not_lt.mp whole)
  have value : decimal.rational = (decimal.digits * 10 ^ power : Nat) := by
    rw [Decimal.rational, same, zpow_natCast]
    push_cast
    rfl
  rw [Decimal.toFloat_eq, value] at reads
  obtain ⟨n, natural⟩ := whole_of_nearest finite positive reads
  exact broken n natural

/-- The text of a finite float that is not negative is digits with a point, which are read back as
that float. -/
theorem valueText_reads (finite : dyadic? x = some d) (positive : d.negative = false) :
    ∃ decimal whole fraction, (valueText x).toList = whole ++ '.' :: fraction ∧
      Decimal.Points decimal whole fraction ∧ decimal.toFloat = x := by
  by_cases whole : ∃ n : Nat, d.rational = n
  · obtain ⟨n, value⟩ := whole
    refine ⟨_, _, ['0'], valueText_of_whole finite positive value, Decimal.points_whole n, ?_⟩
    have same : Decimal.rational ⟨10 * n, -1⟩ = d.rational := by
      rw [value, Decimal.rational]
      push_cast
      rw [zpow_neg_one]
      field_simp
    rw [Decimal.toFloat_eq, same]
    exact nearest_rational finite positive
  · have broken (n : Nat) : d.rational ≠ n := fun value => whole ⟨n, value⟩
    have reads : (Decimal.shortest .up x).normalize.toFloat = x := by
      rw [Decimal.toFloat_congr (Decimal.rational_normalize _)]
      exact Decimal.shortest_reads .up finite positive
        (Dyadic.mantissa_pos_of_broken broken)
    obtain ⟨before, after, laid, points⟩ := Decimal.points_positional .plain
      (Decimal.shortest .up x).normalize.digits (exponent_neg_of_reads finite positive broken reads)
    refine ⟨_, before, after, ?_, points, reads⟩
    rw [valueText_of_broken finite positive broken]
    exact laid

end Float

end Tripwire
