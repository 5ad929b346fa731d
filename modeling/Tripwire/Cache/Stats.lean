import Tripwire.NameMap

/-!
Counts of cache hits and misses, altogether and by label.
-/

namespace Tripwire

structure Stats where
  hits : Nat
  misses : Nat
  hitsBy : NameMap Nat
  missesBy : NameMap Nat
  deriving DecidableEq

namespace Stats

def empty : Stats := ⟨0, 0, .empty, .empty⟩

instance : Inhabited Stats := ⟨empty⟩

def countOf (counts : NameMap Nat) (label : String) : Nat := (counts.get? label).getD 0

def bump (counts : NameMap Nat) (label : String) : NameMap Nat :=
  counts.insert label (countOf counts label + 1)

def recordHit (stats : Stats) (label : String) : Stats :=
  { stats with hits := stats.hits + 1, hitsBy := bump stats.hitsBy label }

def recordMiss (stats : Stats) (label : String) : Stats :=
  { stats with misses := stats.misses + 1, missesBy := bump stats.missesBy label }

def hitsFor (stats : Stats) (label : String) : Nat := countOf stats.hitsBy label

def missesFor (stats : Stats) (label : String) : Nat := countOf stats.missesBy label

/-- The share of hits among all lookups, zero before the first one. -/
def rate (stats : Stats) : Float :=
  let total := stats.hits + stats.misses
  if total = 0 then 0 else Float.ofNat stats.hits / Float.ofNat total

end Stats

end Tripwire
