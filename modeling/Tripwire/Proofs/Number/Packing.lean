import Tripwire.Proofs.Number.Nearest

/-!
The words of doubles.  A word is a sign, an exponent and a mantissa; packing a
canonical mantissa and exponent and unpacking a word undo each other.
-/

namespace Tripwire.Binary64

open Float.Model UnpackedFloat

section Words

variable {s : Sign} {exponent : BitVec 11} {mantissa : BitVec 52}

theorem unpack_of_exponent (some : 0 < exponent.toNat) (bounded : exponent.toNat < 2047) :
    UnpackedFloat.unpack .binary64 (packComponents .binary64 s exponent mantissa) =
      .finite s (2 ^ 52 + mantissa.toNat) (exponent.toNat - 1075) (by omega) := by
  have notLast : exponent ≠ -1#_ := by
    rintro rfl
    exact absurd bounded (by decide)
  have notFirst : exponent ≠ 0#_ := by
    rintro rfl
    exact absurd some (by decide)
  have implicit : (1#1 ++ mantissa).toNat = 2 ^ 52 + mantissa.toNat := by
    rw [BitVec.toNat_append, ← Nat.shiftLeft_add_eq_or_of_lt mantissa.isLt]
    rfl
  rw [UnpackedFloat.unpack]
  simp only [unpackExponent_packComponents, unpackMantissa_packComponents,
    unpackSign_packComponents, Sign.ofBitVec_toBitVec, notLast, notFirst, if_false]
  congr 1

theorem unpack_of_mantissa (some : 0 < mantissa.toNat) :
    UnpackedFloat.unpack .binary64 (packComponents .binary64 s 0#11 mantissa) =
      .finite s mantissa.toNat (-1074) some := by
  have notZero : mantissa ≠ 0#_ := by
    rintro rfl
    exact absurd some (by decide)
  have notLast : 0#11 ≠ -1#11 := by decide
  rw [UnpackedFloat.unpack]
  simp only [unpackExponent_packComponents, unpackMantissa_packComponents,
    unpackSign_packComponents, Sign.ofBitVec_toBitVec, notLast, notZero, if_false, if_true,
    dite_false]
  rfl

theorem unpack_of_first :
    UnpackedFloat.unpack .binary64 (packComponents .binary64 s 0#11 0#52) = .zero s := by
  cases s <;> rfl

theorem unpack_of_last (last : exponent.toNat = 2047) :
    UnpackedFloat.unpack .binary64 (packComponents .binary64 s exponent mantissa) = .infinity s ∨
      UnpackedFloat.unpack .binary64 (packComponents .binary64 s exponent mantissa) =
        .notANumber := by
  have all : exponent = -1#_ := BitVec.eq_of_toNat_eq last
  rw [UnpackedFloat.unpack]
  simp only [unpackExponent_packComponents, unpackMantissa_packComponents,
    unpackSign_packComponents, Sign.ofBitVec_toBitVec, all, if_true]
  split
  · exact .inl rfl
  · exact .inr rfl

end Words

section Doubles

variable {s : Sign} {m : Nat} {e : Int}

theorem pack_of_large {some : 0 < m} (large : 971 < e) :
    UnpackedFloat.pack .binary64 (.finite s m e some) = packedInfinity .binary64 s := by
  have biased : 2 ^ 11 ≤ (e + 1023 + 52).toNat + 1 := by omega
  rw [UnpackedFloat.pack]
  exact if_pos biased

theorem pack_infinity {some : 0 < m} (large : 971 < e) :
    Float.Model.pack (.finite s m e some) = .pack (.infinity s) := by
  simp only [Float.Model.pack, pack_of_large large]
  rfl

theorem pack_of_full {some : 0 < m} (fits : m < 2 ^ 53) (full : 2 ^ 52 ≤ m)
    (bounded : e ≤ 971) : UnpackedFloat.pack .binary64 (.finite s m e some) =
      packComponents .binary64 s (BitVec.ofNat 11 (e + 1023 + 52).toNat) (BitVec.ofNat 52 m) := by
  have biased : ¬2 ^ 11 ≤ (e + 1023 + 52).toNat + 1 := by omega
  have digits : m.log2 + 1 = 53 := by
    have least := (Nat.le_log2 some.ne').mpr full
    have most := (Nat.log2_lt some.ne').mpr fits
    omega
  rw [UnpackedFloat.pack]
  exact (if_neg biased).trans (if_pos digits)

theorem pack_of_less {some : 0 < m} (less : m < 2 ^ 52) :
    UnpackedFloat.pack .binary64 (.finite s m (-1074) some) =
      packComponents .binary64 s 0#11 (BitVec.ofNat 52 m) := by
  have biased : ¬2 ^ 11 ≤ (-1074 + 1023 + 52 : Int).toNat + 1 := by decide
  have digits : m.log2 + 1 ≠ 53 := by
    have most := (Nat.log2_lt some.ne').mpr less
    omega
  rw [UnpackedFloat.pack]
  exact (if_neg biased).trans (if_neg digits)

/-- A canonical mantissa and exponent survive packing. -/
theorem unpack_pack (canonical : Canonical m e) (bounded : e ≤ 971) :
    (Float.Model.pack (.finite s m e canonical.positive)).unpack =
      .finite s m e canonical.positive := by
  obtain ⟨positive, fits, least, full⟩ := canonical
  have unpacked : (Float.Model.pack (.finite s m e positive)).unpack =
      UnpackedFloat.unpack .binary64 (UnpackedFloat.pack .binary64 (.finite s m e positive)) := rfl
  rw [unpacked]
  by_cases large : 2 ^ 52 ≤ m
  · have exponent : (BitVec.ofNat 11 (e + 1023 + 52).toNat).toNat = (e + 1075).toNat := by
      rw [BitVec.toNat_ofNat]
      omega
    have mantissa : (BitVec.ofNat 52 m).toNat = m - 2 ^ 52 := by
      rw [BitVec.toNat_ofNat]
      omega
    rw [pack_of_full fits large bounded, unpack_of_exponent (by omega) (by omega)]
    congr 1
    · omega
    · omega
  · obtain rfl := full.resolve_left large
    have mantissa : (BitVec.ofNat 52 m).toNat = m := by
      rw [BitVec.toNat_ofNat]
      omega
    rw [pack_of_less (not_le.mp large), unpack_of_mantissa (by omega)]
    congr 1

/-- The parts of a finite word are canonical and in range. -/
theorem canonical_of_unpack {word : BitVec Format.binary64.numBits} {some : 0 < m}
    (found : UnpackedFloat.unpack .binary64 word = .finite s m e some) :
    Canonical m e ∧ e ≤ 971 := by
  rw [← packComponents_unpackSign_unpackExponent_unpackMantissa word] at found
  generalize Sign.ofBitVec (unpackSign word) = sign at found
  generalize unpackExponent word = exponent at found
  generalize unpackMantissa word = mantissa at found
  have small : mantissa.toNat < 2 ^ 52 := mantissa.isLt
  have bounded : exponent.toNat < 2 ^ 11 := exponent.isLt
  by_cases last : exponent.toNat = 2047
  · rcases unpack_of_last last with other | other <;> rw [other] at found <;> cases found
  by_cases first : exponent.toNat = 0
  · obtain rfl : exponent = 0#11 := BitVec.eq_of_toNat_eq first
    by_cases zero : mantissa.toNat = 0
    · obtain rfl : mantissa = 0#52 := BitVec.eq_of_toNat_eq zero
      rw [unpack_of_first] at found
      cases found
    · have positive := Nat.pos_of_ne_zero zero
      rw [unpack_of_mantissa positive] at found
      cases found
      exact ⟨⟨positive, by omega, by decide, .inr rfl⟩, by decide⟩
  · rw [unpack_of_exponent (Nat.pos_of_ne_zero first) (by omega)] at found
    cases found
    exact ⟨⟨by omega, by omega, by omega, .inl (by omega)⟩, by omega⟩

/-- Every double is packed from its parts. -/
theorem pack_unpack_toModel (x : Float) : .ofModel (.pack x.toModel.unpack) = x :=
  Float.ofBits_toBits x

end Doubles

end Tripwire.Binary64
