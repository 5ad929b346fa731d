import Mathlib.Data.List.Nodup

/-!
The reference for a bounded store: pairs of distinct keys and values, the one
that was touched last in front.

`get` and `put` bring a pair to the front, and `put` drops pairs from the back
until the capacity is kept.
-/

namespace Tripwire

universe u v

/-- What is asked of a store. -/
inductive Request (κ : Type u) (α : Type v)
  | get (key : κ)
  | put (key : κ) (value : α)
  | remove (key : κ)
  | contains (key : κ)
  | clear
  | size

/-- What a store answers. -/
inductive Reply (α : Type v)
  | value (value? : Option α)
  | truth (present : Bool)
  | count (size : Nat)
  | done

structure Recency (κ : Type u) (α : Type v) where
  pairs : List (κ × α)
  distinct : (pairs.map (·.1)).Nodup

namespace Recency

variable {κ : Type u} {α : Type v}

def empty : Recency κ α := ⟨[], List.nodup_nil⟩

def size (recency : Recency κ α) : Nat := recency.pairs.length

/-- The newest pairs, as many as there is room for. -/
def newest (recency : Recency κ α) (capacity : Nat) : Recency κ α where
  pairs := recency.pairs.take capacity
  distinct := recency.distinct.sublist ((List.take_sublist _ _).map _)

@[simp] theorem pairs_newest (recency : Recency κ α) (capacity : Nat) :
    (recency.newest capacity).pairs = recency.pairs.take capacity := rfl

variable [DecidableEq κ]

def get? (recency : Recency κ α) (key : κ) : Option α := recency.pairs.lookup key

def forget (recency : Recency κ α) (key : κ) : Recency κ α where
  pairs := recency.pairs.filter fun pair => pair.1 ≠ key
  distinct := recency.distinct.sublist (List.filter_sublist.map _)

@[simp] theorem pairs_forget (recency : Recency κ α) (key : κ) :
    (recency.forget key).pairs = recency.pairs.filter fun pair => pair.1 ≠ key := rfl

theorem not_mem_keys_forget (recency : Recency κ α) (key : κ) :
    key ∉ (recency.forget key).pairs.map (·.1) := by
  intro member
  obtain ⟨pair, kept, same⟩ := List.mem_map.mp member
  exact of_decide_eq_true (List.mem_filter.mp kept).2 same

/-- A key and its value in front of all others. -/
def promote (recency : Recency κ α) (key : κ) (value : α) : Recency κ α where
  pairs := (key, value) :: (recency.forget key).pairs
  distinct := List.nodup_cons.mpr ⟨recency.not_mem_keys_forget key, (recency.forget key).distinct⟩

@[simp] theorem pairs_promote (recency : Recency κ α) (key : κ) (value : α) :
    (recency.promote key value).pairs = (key, value) :: (recency.forget key).pairs := rfl

def get (recency : Recency κ α) (key : κ) : Option α × Recency κ α :=
  match recency.get? key with
  | some value => (some value, recency.promote key value)
  | none => (none, recency)

def put (capacity : Nat) (recency : Recency κ α) (key : κ) (value : α) : Recency κ α :=
  (recency.promote key value).newest capacity

/-- Meets one request; what is put in is given back. -/
def serve (capacity : Nat) (recency : Recency κ α) : Request κ α → Reply α × Recency κ α
  | .get key => (.value (recency.get key).1, (recency.get key).2)
  | .put key value => (.value (some value), recency.put capacity key value)
  | .remove key => (.value (recency.get? key), recency.forget key)
  | .contains key => (.truth (recency.get? key).isSome, recency)
  | .clear => (.done, empty)
  | .size => (.count recency.size, recency)

/-- Meets requests in order. -/
def serveAll (capacity : Nat) : Recency κ α → List (Request κ α) → List (Reply α) × Recency κ α
  | recency, [] => ([], recency)
  | recency, request :: rest =>
    let (reply, recency) := recency.serve capacity request
    let (replies, recency) := serveAll capacity recency rest
    (reply :: replies, recency)

variable {recency : Recency κ α} {capacity : Nat}

theorem size_forget_le (key : κ) : (recency.forget key).size ≤ recency.size :=
  List.length_filter_le _ _

theorem size_put_le (key : κ) (value : α) : (recency.put capacity key value).size ≤ capacity :=
  List.length_take_le _ _

/-- Bringing a pair to the front makes no pair of it that was not there. -/
theorem size_promote_of_get? {key : κ} {value : α} (found : recency.get? key = some value) :
    (recency.promote key value).size ≤ recency.size := by
  obtain ⟨before, after, split, _⟩ := List.lookup_eq_some_iff.mp found
  apply Nat.succ_le_of_lt
  apply List.length_filter_lt_length_iff_exists.mpr
  refine ⟨(key, value), ?_, by simp⟩
  rw [split]
  simp

/-- Looking up a key gives the pairs another order at most. -/
theorem pairs_get_perm (key : κ) : (recency.get key).2.pairs.Perm recency.pairs := by
  unfold get
  cases found : recency.get? key with
  | none => exact .refl _
  | some value =>
    obtain ⟨before, after, split, _⟩ := List.lookup_eq_some_iff.mp found
    have distinct := recency.distinct
    rw [split, (List.perm_middle.map Prod.fst).nodup_iff] at distinct
    have others : ∀ pair ∈ before ++ after, pair.1 ≠ key := fun pair member same =>
      (List.nodup_cons.mp distinct).1 (List.mem_map.mpr ⟨pair, member, same⟩)
    rw [List.forall_mem_append] at others
    have kept : recency.pairs.filter (fun pair => pair.1 ≠ key) = before ++ after := by
      rw [split, List.filter_append, List.filter_cons_of_neg (by simp),
        List.filter_eq_self.mpr fun pair member => decide_eq_true (others.1 pair member),
        List.filter_eq_self.mpr fun pair member => decide_eq_true (others.2 pair member)]
    rw [pairs_promote, pairs_forget, kept, split]
    exact List.perm_middle.symm

theorem size_serve_le (fits : recency.size ≤ capacity) (request : Request κ α) :
    (recency.serve capacity request).2.size ≤ capacity := by
  cases request with
  | get key =>
    simp only [serve, get]
    split
    next value found => exact Nat.le_trans (size_promote_of_get? found) fits
    next => exact fits
  | put key value => exact size_put_le key value
  | remove key => exact Nat.le_trans (size_forget_le key) fits
  | contains key => exact fits
  | clear => exact Nat.zero_le _
  | size => exact fits

theorem size_serveAll_le (fits : recency.size ≤ capacity) (requests : List (Request κ α)) :
    (recency.serveAll capacity requests).2.size ≤ capacity := by
  induction requests generalizing recency with
  | nil => exact fits
  | cons request rest ih => exact ih (size_serve_le fits request)

end Recency
end Tripwire
