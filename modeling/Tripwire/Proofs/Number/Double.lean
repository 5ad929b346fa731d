import Tripwire.Number.Double
import Tripwire.Proofs.Number.Packing

/-!
Doubles against the numbers that they stand for.  Every number is stored with
bits that stand for it, and only a NaN has bits that its number does not tell.
-/

namespace Tripwire.Double

open Float.Model UnpackedFloat

@[simp] theorem toFloat_ofFloat (x : Float) : (ofFloat x).toFloat = x := Float.ofBits_toBits x

theorem ofFloat_toFloat {x : Double} (number : x.toFloat.toModel.unpack ≠ .notANumber) :
    ofFloat x.toFloat = x := by
  have packed := @pack_unpack .binary64 x.bits.toBitVec (by decide)
  have unpacked : x.toFloat.toModel.unpack = UnpackedFloat.unpack .binary64
      (UnpackedFloat.pack .binary64 (UnpackedFloat.unpack .binary64 x.bits.toBitVec)) := rfl
  rw [unpacked, packed] at number
  split at packed
  next nan => rw [if_pos nan, unpack_packedNaN] at number; exact absurd rfl number
  next => exact Double.ext (UInt64.toBitVec_inj.mp packed)

/-- Doubles that stand for one number other than NaN are the same. -/
theorem eq_of_toFloat {x y : Double} (number : x.toFloat.toModel.unpack ≠ .notANumber)
    (same : x.toFloat = y.toFloat) : x = y :=
  calc
    x = ofFloat x.toFloat := (ofFloat_toFloat number).symm
    _ = ofFloat y.toFloat := congrArg ofFloat same
    _ = y := ofFloat_toFloat (same ▸ number)

end Tripwire.Double
