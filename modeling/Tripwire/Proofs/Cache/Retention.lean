import Mathlib.Data.Finset.Card
import Tripwire.Proofs.Cache.Recency

/-!
How long a pair stays in the reference of a store.

A pair is behind those that were touched after it.  As long as they are fewer
than there is room for, and nothing removes or replaces the pair, it is found.
-/

namespace Tripwire

universe u v

variable {κ : Type u} {α : Type v}

/-- The key that a request looks up or stores. -/
def Request.touched? : Request κ α → Option κ
  | get key | put key _ => some key
  | remove _ | contains _ | clear | size => none

/-- The request neither removes nor replaces what a key stands with. -/
def Request.Spares (key : κ) : Request κ α → Prop
  | put other _ | remove other => other ≠ key
  | clear => False
  | get _ | contains _ | size => True

section

variable [DecidableEq κ]

/-- The keys that requests look up or store, apart from one. -/
def Request.otherKeys (key : κ) (requests : List (Request κ α)) : Finset κ :=
  (requests.filterMap Request.touched?).toFinset.erase key

theorem Request.otherKeys_append (key : κ) (first second : List (Request κ α)) :
    otherKeys key (first ++ second) = otherKeys key first ∪ otherKeys key second := by
  rw [otherKeys, List.filterMap_append, List.toFinset_append, Finset.erase_union_distrib]
  rfl

theorem Request.otherKeys_singleton {key other : κ} {request : Request κ α}
    (touched : request.touched? = some other) (apart : other ≠ key) :
    otherKeys key [request] = {other} := by
  have alone : [request].filterMap touched? = [other] := by
    rw [List.filterMap_cons_some touched, List.filterMap_nil]
  rw [otherKeys, alone, List.toFinset_cons, List.toFinset_nil, insert_empty_eq]
  exact Finset.erase_eq_of_notMem (Finset.notMem_singleton.mpr (Ne.symm apart))

end

namespace Recency

/-- A pair is there, and all that is newer has one of the given keys. -/
def Holds (recency : Recency κ α) (key : κ) (value : α) (touched : Finset κ) : Prop :=
  ∃ newer older, recency.pairs = newer ++ (key, value) :: older ∧
    ∀ pair ∈ newer, pair.1 ∈ touched

variable {recency : Recency κ α} {key : κ} {value : α} {touched : Finset κ}

theorem Holds.mono {more : Finset κ} (holds : recency.Holds key value touched)
    (included : touched ⊆ more) : recency.Holds key value more := by
  obtain ⟨newer, older, split, recent⟩ := holds
  exact ⟨newer, older, split, fun pair member => included (recent pair member)⟩

/-- Dropping old pairs keeps a pair as long as the newer ones leave room. -/
theorem Holds.newest {capacity : Nat} (holds : recency.Holds key value touched)
    (room : touched.card < capacity) : (recency.newest capacity).Holds key value touched := by
  classical
  obtain ⟨newer, older, split, recent⟩ := holds
  have distinct : (newer.map (·.1)).Nodup := by
    have all := recency.distinct
    rw [split, List.map_append] at all
    exact all.of_append_left
  have few : newer.length ≤ touched.card := by
    rw [← List.length_map (·.1), ← List.toFinset_card_of_nodup distinct]
    apply Finset.card_le_card
    intro other member
    obtain ⟨pair, newerPair, rfl⟩ := List.mem_map.mp (List.mem_toFinset.mp member)
    exact recent pair newerPair
  obtain ⟨left, same⟩ : ∃ left, capacity = newer.length + (left + 1) :=
    ⟨capacity - newer.length - 1, by omega⟩
  refine ⟨newer, older.take left, ?_, recent⟩
  rw [pairs_newest, split, same, List.take_length_add_append, List.take_succ_cons]

variable [DecidableEq κ]

theorem Holds.get? (holds : recency.Holds key value touched) :
    recency.get? key = some value := by
  obtain ⟨newer, older, split, -⟩ := holds
  have distinct := recency.distinct
  rw [split, List.map_append, List.map_cons, List.nodup_append] at distinct
  refine List.lookup_eq_some_iff.mpr ⟨newer, older, split, ?_⟩
  intro pair member
  have apart := distinct.2.2 pair.1 (List.mem_map_of_mem member) key List.mem_cons_self
  exact bne_iff_ne.mpr (Ne.symm apart)

theorem holds_promote (recency : Recency κ α) (key : κ) (value : α) :
    (recency.promote key value).Holds key value ∅ := ⟨[], _, rfl, nofun⟩

theorem Holds.forget {other : κ} (holds : recency.Holds key value touched) (apart : other ≠ key) :
    (recency.forget other).Holds key value touched := by
  obtain ⟨newer, older, split, recent⟩ := holds
  refine ⟨newer.filter fun pair => pair.1 ≠ other, older.filter fun pair => pair.1 ≠ other, ?_, ?_⟩
  · rw [pairs_forget, split, List.filter_append, List.filter_cons_of_pos]
    exact decide_eq_true (Ne.symm apart)
  · intro pair member
    exact recent pair (List.mem_filter.mp member).1

theorem Holds.promote {other : κ} (holds : recency.Holds key value touched) (apart : other ≠ key)
    (stored : α) : (recency.promote other stored).Holds key value (insert other touched) := by
  obtain ⟨newer, older, split, recent⟩ := holds.forget apart
  refine ⟨(other, stored) :: newer, older, ?_, ?_⟩
  · rw [pairs_promote, split, List.cons_append]
  · intro pair member
    rcases List.mem_cons.mp member with rfl | old
    · exact Finset.mem_insert_self ..
    · exact Finset.mem_insert_of_mem (recent pair old)

theorem Holds.get (holds : recency.Holds key value touched) (other : κ) :
    (recency.get other).2.Holds key value (if other = key then touched else insert other touched) := by
  by_cases same : other = key
  · subst same
    rw [Recency.get, holds.get?, if_pos rfl]
    exact (recency.holds_promote other value).mono (Finset.empty_subset _)
  · rw [Recency.get, if_neg same]
    split
    next stored _ => exact holds.promote same stored
    next => exact holds.mono (Finset.subset_insert ..)

theorem Holds.serve {capacity : Nat} (holds : recency.Holds key value touched)
    (request : Request κ α) (spared : request.Spares key)
    (room : (touched ∪ Request.otherKeys key [request]).card < capacity) :
    (recency.serve capacity request).2.Holds key value
      (touched ∪ Request.otherKeys key [request]) := by
  cases request with
  | get other =>
    have gotten := holds.get other
    split at gotten
    next => exact gotten.mono Finset.subset_union_left
    next apart =>
      rw [Request.otherKeys_singleton rfl apart, Finset.union_singleton]
      exact gotten
  | put other stored =>
    rw [Request.otherKeys_singleton rfl spared, Finset.union_singleton] at room ⊢
    exact (holds.promote spared stored).newest room
  | remove other => exact (holds.forget spared).mono Finset.subset_union_left
  | contains other => exact holds.mono Finset.subset_union_left
  | clear => exact spared.elim
  | size => exact holds.mono Finset.subset_union_left

/-- A pair outlasts all requests that spare it and touch fewer other keys than there is room for. -/
theorem Holds.serveAll {capacity : Nat} (holds : recency.Holds key value touched)
    (requests : List (Request κ α)) (spared : ∀ request ∈ requests, request.Spares key)
    (room : (touched ∪ Request.otherKeys key requests).card < capacity) :
    (recency.serveAll capacity requests).2.Holds key value
      (touched ∪ Request.otherKeys key requests) := by
  induction requests generalizing recency touched with
  | nil => exact holds.mono Finset.subset_union_left
  | cons request rest ih =>
    obtain ⟨first, later⟩ := List.forall_mem_cons.mp spared
    rw [← List.singleton_append, Request.otherKeys_append, ← Finset.union_assoc] at room ⊢
    have now := holds.serve request first
      (Nat.lt_of_le_of_lt (Finset.card_le_card Finset.subset_union_left) room)
    exact ih now later room

end Recency
end Tripwire
