import Mathlib.Algebra.GroupWithZero.Nat
import Tripwire.Cache.Stats
import Tripwire.Proofs.NameMap

/-!
Counters balance.

A look-up is counted once altogether and once under its label, so the counts of
all labels add up to the count altogether (`Balanced`).
-/

namespace Tripwire

namespace NameMap

/-- A new value adds to the sum what the old one does not account for. -/
theorem sum_place (name : String) (value : Nat) {entries : List (String × Nat)}
    (sorted : entries.Pairwise (fun a b => a.1 < b.1)) :
    ((place name value entries).map (·.2)).sum + (lookup name entries).getD 0 =
      (entries.map (·.2)).sum + value := by
  induction entries with
  | nil => simp [place, lookup]
  | cons head rest ih =>
    obtain ⟨key, old⟩ := head
    obtain ⟨below, sortedRest⟩ := List.pairwise_cons.mp sorted
    simp only [place, lookup]
    split
    next before =>
      have absent : lookup name rest = none := by
        apply lookup_eq_none
        intro entry member same
        exact String.lt_asymm before (same ▸ below entry member)
      have apart : name ≠ key := fun same => String.lt_irrefl name (same ▸ before)
      simp only [if_neg apart, absent, List.map_cons, List.sum_cons, Option.getD_none]
      omega
    next =>
      split
      next => simp only [List.map_cons, List.sum_cons, Option.getD_some]; omega
      next =>
        have further := ih sortedRest
        simp only [List.map_cons, List.sum_cons]
        omega

end NameMap

namespace Stats

/-- The counts of all labels together. -/
def total (counts : NameMap Nat) : Nat := (counts.toList.map (·.2)).sum

@[simp] theorem total_bump (counts : NameMap Nat) (label : String) :
    total (bump counts label) = total counts + 1 := by
  have added := NameMap.sum_place label (countOf counts label + 1) counts.sorted
  have old : (NameMap.lookup label counts.entries).getD 0 = countOf counts label := rfl
  rw [old] at added
  simp only [total, NameMap.toList, bump, NameMap.insert]
  omega

@[simp] theorem countOf_bump (counts : NameMap Nat) (label other : String) :
    countOf (bump counts label) other =
      countOf counts other + if other = label then 1 else 0 := by
  simp only [countOf, bump, NameMap.get?_insert]
  by_cases same : other = label
  · simp [same]
  · simp [same]

/-- Each count altogether is the sum of the counts by label. -/
structure Balanced (stats : Stats) : Prop where
  hits : stats.hits = total stats.hitsBy
  misses : stats.misses = total stats.missesBy

variable {stats : Stats}

theorem balanced_empty : empty.Balanced := ⟨rfl, rfl⟩

theorem Balanced.recordHit (balanced : stats.Balanced) (label : String) :
    (stats.recordHit label).Balanced :=
  ⟨(congrArg (· + 1) balanced.hits).trans (total_bump _ label).symm, balanced.misses⟩

theorem Balanced.recordMiss (balanced : stats.Balanced) (label : String) :
    (stats.recordMiss label).Balanced :=
  ⟨balanced.hits, (congrArg (· + 1) balanced.misses).trans (total_bump _ label).symm⟩

end Stats
end Tripwire
