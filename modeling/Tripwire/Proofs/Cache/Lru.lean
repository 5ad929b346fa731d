import Tripwire.Cache.Lru

/-!
What every operation of a store keeps of its entries.

No operation invents a value: an assertion about keys and values that holds of
all entries still holds after each of them, provided that it holds of what is
put in.  A look-up keeps every key with its value (`peek?_get`).
-/

namespace Tripwire.Lru

universe u v

variable {κ : Type u} {α : Type v}

/-- An assertion about keys and values holds of every entry. -/
def All (P : κ → α → Prop) (store : Lru κ α) : Prop :=
  ∀ entry ∈ store.entries, P entry.1 entry.2.2

theorem All.imp {P Q : κ → α → Prop} {store : Lru κ α} (holds : store.All P)
    (weaker : ∀ key value, P key value → Q key value) : store.All Q :=
  fun entry member => weaker _ _ (holds entry member)

theorem all_new {P : κ → α → Prop} (capacity : Nat) : (new capacity : Lru κ α).All P := nofun

theorem all_clear {P : κ → α → Prop} (store : Lru κ α) : store.clear.All P := nofun

variable [DecidableEq κ] {P : κ → α → Prop} {store : Lru κ α}

theorem mem_entries_of_peek? {key : κ} {value : α} (found : store.peek? key = some value) :
    ∃ tick, (key, tick, value) ∈ store.entries := by
  obtain ⟨⟨tick, stored⟩, looked, equal⟩ := Option.map_eq_some_iff.mp found
  cases equal
  obtain ⟨before, after, split, _⟩ := List.lookup_eq_some_iff.mp looked
  exact ⟨tick, by rw [split]; simp⟩

theorem All.others {key : κ} (holds : store.All P) :
    ∀ entry ∈ others key store.entries, P entry.1 entry.2.2 :=
  fun entry member => holds entry (List.mem_filter.mp member).1

theorem All.touch (holds : store.All P) {key : κ} {value : α} (added : P key value) :
    (store.touch key value).All P := by
  intro entry member
  rcases List.mem_cons.mp member with equal | old
  · subst equal
    exact added
  · exact holds.others entry old

omit [DecidableEq κ] in
theorem All.advance (holds : store.All P) : store.advance.All P := holds

theorem All.of_get (holds : store.All P) {key : κ} {value : α}
    (found : (store.get key).1 = some value) : P key value := by
  have peeked : store.advance.peek? key = some value := by
    simp only [get] at found
    split at found
    next stored equal => cases found; exact equal
    next => cases found
  obtain ⟨tick, member⟩ := mem_entries_of_peek? peeked
  exact holds (key, tick, value) member

theorem All.get (holds : store.All P) (key : κ) : (store.get key).2.All P := by
  have found : ∀ value, (store.get key).1 = some value → P key value := fun _ => holds.of_get
  simp only [Lru.get] at found ⊢
  split
  next value equal => exact holds.advance.touch (found value (by rw [equal]))
  next => exact holds

theorem subset_of_evict (capacity : Nat) (entries : List (κ × Nat × α)) (order : List (Nat × κ)) :
    (evict capacity entries order).1 ⊆ entries := by
  induction order generalizing entries with
  | nil => exact List.Subset.refl _
  | cons oldest rest ih =>
    obtain ⟨tick, key⟩ := oldest
    simp only [evict]
    split
    · exact List.Subset.refl _
    · exact List.Subset.trans (ih _) fun entry member =>
        (List.mem_filter.mp member).1

theorem All.put (holds : store.All P) {key : κ} {value : α} (added : P key value) :
    (store.put key value).All P := by
  intro entry member
  have touched : (store.advance.touch key value).All P := holds.advance.touch added
  exact touched entry (subset_of_evict _ _ _ member)

theorem All.remove (holds : store.All P) (key : κ) : (store.remove key).2.All P := by
  simp only [Lru.remove]
  split
  · exact holds.others
  · exact holds

/-! ### Looking up -/

theorem lookup_others {key other : κ} (apart : other ≠ key) (entries : List (κ × Nat × α)) :
    (Lru.others key entries).lookup other = entries.lookup other := by
  induction entries with
  | nil => rfl
  | cons head rest ih =>
    obtain ⟨first, stamped⟩ := head
    by_cases same : first = key
    · subst same
      have dropped : Lru.others first ((first, stamped) :: rest) = Lru.others first rest := by
        simp [Lru.others]
      rw [dropped, ih, List.lookup_cons, beq_false_of_ne apart]
    · have kept : Lru.others key ((first, stamped) :: rest) =
          (first, stamped) :: Lru.others key rest := by simp [Lru.others, same]
      rw [kept, List.lookup_cons, List.lookup_cons, ih]

/-- A look-up changes what no key has. -/
theorem peek?_get (store : Lru κ α) (key other : κ) :
    (store.get key).2.peek? other = store.peek? other := by
  simp only [Lru.get]
  split
  next value found =>
    by_cases same : other = key
    · subst same
      exact Eq.trans (by simp [peek?, entry?, Lru.touch]) found.symm
    · simp only [peek?, entry?, Lru.touch, List.lookup_cons, beq_false_of_ne same,
        lookup_others same]
      rfl
  next => rfl

end Tripwire.Lru
