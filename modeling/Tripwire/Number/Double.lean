import Tripwire.Number.Binary64

/-!
Doubles as they are stored.  Computing with numbers knows one NaN only, so it
goes through `toFloat`; the bits keep apart the NaNs of different signs and
payloads.  A result that is NaN has the bits of `Binary64.nan`.
-/

namespace Tripwire

/-- A double-precision number by its bits. -/
@[ext] structure Double where
  bits : UInt64
  deriving DecidableEq

namespace Double

def toFloat (x : Double) : Float := .ofBits x.bits

def ofFloat (x : Float) : Double := ⟨x.toBits⟩

instance : Coe Float Double := ⟨ofFloat⟩

/-- The other sign, which a NaN changes as well. -/
def negate (x : Double) : Double := ⟨x.bits ^^^ 0x8000000000000000⟩

end Double

end Tripwire
