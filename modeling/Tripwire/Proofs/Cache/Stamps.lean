import Mathlib.Data.List.Induction
import Mathlib.Data.List.Nodup
import Tripwire.Cache.Lru

/-!
The two tables of a store hold the same pairs, each with the tick of its last
touch: the entries in any order, the order from the oldest tick to the newest.
Every operation is followed on the list of these pairs, newest first.
-/

namespace Tripwire

universe u v

section Lookup

variable {κ : Type u} {β : Type v} [DecidableEq κ]

/-- Where keys are distinct, looking one up finds what stands with it. -/
theorem lookup_eq_some_iff_mem {pairs : List (κ × β)} (distinct : (pairs.map (·.1)).Nodup)
    {key : κ} {value : β} : pairs.lookup key = some value ↔ (key, value) ∈ pairs := by
  induction pairs with
  | nil => simp
  | cons head rest ih =>
    obtain ⟨other, stored⟩ := head
    rw [List.map_cons, List.nodup_cons] at distinct
    by_cases same : key = other
    · subst same
      have absent : (key, value) ∉ rest := by
        intro member
        exact distinct.1 (List.mem_map.mpr ⟨(key, value), member, rfl⟩)
      simp [absent, eq_comm]
    · rw [List.lookup_cons, beq_false_of_ne same]
      simp [ih distinct.2, same]

theorem lookup_eq_of_perm {pairs others : List (κ × β)} (shuffled : pairs.Perm others)
    (distinct : (others.map (·.1)).Nodup) (key : κ) : pairs.lookup key = others.lookup key := by
  apply Option.ext
  intro value
  have kept : (pairs.map (·.1)).Nodup := (shuffled.map _).nodup_iff.mpr distinct
  rw [lookup_eq_some_iff_mem kept, lookup_eq_some_iff_mem distinct, shuffled.mem_iff]

end Lookup

namespace Lru

variable {κ : Type u} {α : Type v}

/-- The place of a stamped pair in the order. -/
def mark (item : κ × Nat × α) : Nat × κ := (item.2.1, item.1)

/-- Stamped pairs, the newest in front, that both tables of a store hold. -/
structure Stamps (store : Lru κ α) (items : List (κ × Nat × α)) : Prop where
  entries : store.entries.Perm items
  order : store.order = (items.map mark).reverse
  keys : (items.map (·.1)).Nodup
  ticks : items.Pairwise fun newer older => older.2.1 < newer.2.1
  past : ∀ item ∈ items, item.2.1 ≤ store.clock

variable {store : Lru κ α} {items : List (κ × Nat × α)} {key : κ} {tick : Nat} {value : α}

theorem stamps_new (capacity : Nat) : (new capacity : Lru κ α).Stamps [] :=
  ⟨.nil, rfl, List.nodup_nil, .nil, nofun⟩

theorem Stamps.clear (store : Lru κ α) : store.clear.Stamps [] :=
  ⟨.nil, rfl, List.nodup_nil, .nil, nofun⟩

theorem Stamps.advance (stamps : store.Stamps items) : store.advance.Stamps items :=
  { stamps with past := fun item member => Nat.le_succ_of_le (stamps.past item member) }

/-- A tick tells the key, since no two pairs have the same one. -/
theorem Stamps.key_eq (stamps : store.Stamps items) {item other : κ × Nat × α}
    (member : item ∈ items) (otherMember : other ∈ items) :
    item.2.1 = other.2.1 ↔ item.1 = other.1 := by
  have ticks : (items.map (·.2.1)).Nodup :=
    List.pairwise_map.mpr (stamps.ticks.imp fun later => Nat.ne_of_gt later)
  constructor
  · intro same
    rw [List.inj_on_of_nodup_map ticks member otherMember same]
  · intro same
    rw [List.inj_on_of_nodup_map stamps.keys member otherMember same]

variable [DecidableEq κ]

theorem Stamps.entry? (stamps : store.Stamps items) (key : κ) :
    store.entry? key = items.lookup key := lookup_eq_of_perm stamps.entries stamps.keys key

theorem Stamps.entry?_eq_some_iff (stamps : store.Stamps items) :
    store.entry? key = some (tick, value) ↔ (key, tick, value) ∈ items := by
  rw [stamps.entry?, lookup_eq_some_iff_mem stamps.keys]

/-- Without the tick of a key the order is that of the other pairs. -/
theorem Stamps.without (stamps : store.Stamps items) (member : (key, tick, value) ∈ items) :
    without tick store.order = ((others key items).map mark).reverse := by
  rw [Lru.without, stamps.order, List.filter_reverse, List.filter_map, others]
  congr 2
  apply List.filter_congr
  intro item itemMember
  simp only [Function.comp_apply, mark]
  exact decide_eq_decide.mpr (not_congr (stamps.key_eq itemMember member))

theorem others_of_lookup (absent : items.lookup key = none) : others key items = items := by
  apply List.filter_eq_self.mpr
  intro item member
  have apart := List.lookup_eq_none_iff.mp absent item member
  exact decide_eq_true (Ne.symm (bne_iff_ne.mp apart))

theorem Stamps.others (stamps : store.Stamps items) (key : κ) :
    { store with entries := others key store.entries
                 order := ((others key items).map mark).reverse }.Stamps (others key items) where
  entries := stamps.entries.filter _
  order := rfl
  keys := stamps.keys.sublist (List.filter_sublist.map _)
  ticks := stamps.ticks.filter _
  past item member := stamps.past item (List.mem_filter.mp member).1

/-- Touching a key after the clock went on makes its pair the newest. -/
theorem Stamps.touch (stamps : store.Stamps items) (key : κ) (value : α) :
    (store.advance.touch key value).Stamps
      ((key, store.clock + 1, value) :: Lru.others key items) := by
  have kept := stamps.others key
  constructor
  case entries => exact kept.entries.cons _
  case order =>
    simp only [Lru.touch, List.map_cons, List.reverse_cons]
    congr 1
    split
    next tick old found =>
      exact stamps.advance.without (stamps.advance.entry?_eq_some_iff.mp found)
    next absent =>
      rw [stamps.advance.entry?] at absent
      rw [others_of_lookup absent]
      exact stamps.order
  case keys =>
    refine List.nodup_cons.mpr ⟨?_, kept.keys⟩
    intro member
    obtain ⟨item, itemMember, same⟩ := List.mem_map.mp member
    exact of_decide_eq_true (List.mem_filter.mp itemMember).2 same
  case ticks =>
    refine List.pairwise_cons.mpr ⟨?_, kept.ticks⟩
    intro item member
    exact Nat.lt_succ_of_le (kept.past item member)
  case past =>
    intro item member
    rcases List.mem_cons.mp member with rfl | old
    · exact Nat.le_refl _
    · exact Nat.le_succ_of_le (kept.past item old)

/-- Eviction leaves the newest pairs in both tables. -/
theorem evict_eq (capacity : Nat) (items entries : List (κ × Nat × α))
    (shuffled : entries.Perm items) (keys : (items.map (·.1)).Nodup) :
    (evict capacity entries (items.map mark).reverse).1.Perm (items.take capacity) ∧
      (evict capacity entries (items.map mark).reverse).2 =
        ((items.take capacity).map mark).reverse := by
  -- The order begins with the oldest pair, so the induction takes pairs off the back.
  induction items using List.reverseRecOn generalizing entries with
  | nil => simpa [evict] using shuffled
  | append_singleton newer oldest ih =>
    rw [List.map_append, List.reverse_append]
    have length : entries.length = newer.length + 1 := by
      rw [shuffled.length_eq, List.length_append, List.length_singleton]
    simp only [List.map_singleton, List.reverse_singleton, List.singleton_append, mark, evict]
    split
    next fits =>
      have whole : (newer ++ [oldest]).take capacity = newer ++ [oldest] := by
        apply List.take_of_length_le
        rwa [← shuffled.length_eq]
      rw [whole]
      refine ⟨shuffled, ?_⟩
      simp [mark]
    next full =>
      rw [List.map_append, List.nodup_append] at keys
      have rest : others oldest.1 (newer ++ [oldest]) = newer := by
        rw [others, List.filter_append, List.filter_eq_self.mpr, List.filter_eq_nil_iff.mpr,
          List.append_nil]
        · simp
        · intro item member
          have apart := keys.2.2 item.1 (List.mem_map_of_mem member) oldest.1 (by simp)
          exact decide_eq_true apart
      have dropped : (others oldest.1 entries).Perm newer := rest ▸ shuffled.filter _
      rw [List.take_append_of_le_length (by omega)]
      exact ih _ dropped keys.1

theorem Stamps.put (stamps : store.Stamps items) (key : κ) (value : α) :
    (store.put key value).Stamps
      (((key, store.clock + 1, value) :: Lru.others key items).take store.capacity) := by
  have touched := stamps.touch key value
  have kept := List.take_sublist store.capacity
    ((key, store.clock + 1, value) :: Lru.others key items)
  have evicted := evict_eq store.capacity _ _ touched.entries touched.keys
  rw [← touched.order] at evicted
  constructor
  case entries => exact evicted.1
  case order => exact evicted.2
  case keys => exact touched.keys.sublist (kept.map _)
  case ticks => exact touched.ticks.sublist kept
  case past => exact fun item member => touched.past item (kept.subset member)

end Lru
end Tripwire
