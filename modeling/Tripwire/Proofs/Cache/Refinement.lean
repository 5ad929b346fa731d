import Tripwire.Proofs.Cache.Lru
import Tripwire.Proofs.Cache.Recency
import Tripwire.Proofs.Cache.Stamps

/-!
A store is its reference: it answers every request as the list of its pairs by
recency does.
-/

namespace Tripwire

universe u v

namespace Lru

variable {κ : Type u} {α : Type v}

/-- A stamped pair without its tick. -/
def bare (item : κ × Nat × α) : κ × α := (item.1, item.2.2)

/-- A store holds the pairs of its reference, the newer ones with later ticks. -/
def Reflects (store : Lru κ α) (recency : Recency κ α) : Prop :=
  ∃ items, store.Stamps items ∧ items.map bare = recency.pairs

/-- Both tables hold every key once, and the same ticks. -/
structure Coherent (store : Lru κ α) : Prop where
  keys : (store.entries.map (·.1)).Nodup
  ticks : (store.order.map (·.1)).Nodup
  same : ∀ key tick, (tick, key) ∈ store.order ↔ ∃ value, (key, tick, value) ∈ store.entries

variable {store : Lru κ α} {recency : Recency κ α}

theorem Reflects.size (reflects : store.Reflects recency) : store.size = recency.size := by
  obtain ⟨items, stamps, same⟩ := reflects
  rw [Lru.size, Recency.size, ← same, List.length_map, stamps.entries.length_eq]

theorem reflects_new (capacity : Nat) : (new capacity : Lru κ α).Reflects .empty :=
  ⟨[], stamps_new capacity, rfl⟩

theorem Reflects.clear (store : Lru κ α) : store.clear.Reflects .empty :=
  ⟨[], .clear store, rfl⟩

theorem Reflects.advance (reflects : store.Reflects recency) : store.advance.Reflects recency := by
  obtain ⟨items, stamps, same⟩ := reflects
  exact ⟨items, stamps.advance, same⟩

theorem Reflects.coherent (reflects : store.Reflects recency) : store.Coherent := by
  obtain ⟨items, stamps, -⟩ := reflects
  constructor
  case keys => exact (stamps.entries.map _).nodup_iff.mpr stamps.keys
  case ticks =>
    rw [stamps.order, List.map_reverse, List.nodup_reverse, List.map_map]
    exact List.pairwise_map.mpr (stamps.ticks.imp fun later => Nat.ne_of_gt later)
  case same =>
    intro key tick
    simp only [stamps.order, List.mem_reverse, List.mem_map, stamps.entries.mem_iff]
    constructor
    · rintro ⟨⟨other, stamp, value⟩, member, equal⟩
      cases equal
      exact ⟨value, member⟩
    · rintro ⟨value, member⟩
      exact ⟨(key, tick, value), member, rfl⟩

variable [DecidableEq κ]

/-- The store meets one request; what is put in is given back. -/
def serve (store : Lru κ α) : Request κ α → Reply α × Lru κ α
  | .get key => (.value (store.get key).1, (store.get key).2)
  | .put key value => (.value (some value), store.put key value)
  | .remove key => (.value (store.remove key).1, (store.remove key).2)
  | .contains key => (.truth (store.contains key), store)
  | .clear => (.done, store.clear)
  | .size => (.count store.size, store)

/-- Meets requests in order. -/
def serveAll : Lru κ α → List (Request κ α) → List (Reply α) × Lru κ α
  | store, [] => ([], store)
  | store, request :: rest =>
    let (reply, store) := store.serve request
    let (replies, store) := serveAll store rest
    (reply :: replies, store)

theorem others_map_bare (key : κ) (items : List (κ × Nat × α)) :
    (Lru.others key items).map bare = (items.map bare).filter fun pair => pair.1 ≠ key := by
  rw [List.filter_map]
  rfl

theorem Reflects.peek? (reflects : store.Reflects recency) (key : κ) :
    store.peek? key = recency.get? key := by
  obtain ⟨items, stamps, same⟩ := reflects
  apply Option.ext
  intro value
  rw [Lru.peek?, Recency.get?, lookup_eq_some_iff_mem recency.distinct, ← same, List.mem_map,
    Option.map_eq_some_iff]
  constructor
  · rintro ⟨⟨tick, stored⟩, found, rfl⟩
    exact ⟨(key, tick, stored), stamps.entry?_eq_some_iff.mp found, rfl⟩
  · rintro ⟨⟨other, tick, stored⟩, member, equal⟩
    cases equal
    exact ⟨(tick, stored), stamps.entry?_eq_some_iff.mpr member, rfl⟩

theorem Reflects.contains (reflects : store.Reflects recency) (key : κ) :
    store.contains key = (recency.get? key).isSome := by
  rw [← reflects.peek?, Lru.contains, Lru.peek?, Option.isSome_map]

theorem Reflects.touch (reflects : store.Reflects recency) (key : κ) (value : α) :
    (store.advance.touch key value).Reflects (recency.promote key value) := by
  obtain ⟨items, stamps, same⟩ := reflects
  refine ⟨_, stamps.touch key value, ?_⟩
  rw [List.map_cons, others_map_bare, same]
  rfl

theorem Reflects.get (reflects : store.Reflects recency) (key : κ) :
    (store.get key).1 = (recency.get key).1 ∧ (store.get key).2.Reflects (recency.get key).2 := by
  simp only [Lru.get, Recency.get, reflects.advance.peek? key]
  cases recency.get? key with
  | some value => exact ⟨rfl, reflects.touch key value⟩
  | none => exact ⟨rfl, reflects.advance⟩

theorem Reflects.put (reflects : store.Reflects recency) (key : κ) (value : α) :
    (store.put key value).Reflects (recency.put store.capacity key value) := by
  obtain ⟨items, stamps, same⟩ := reflects
  refine ⟨_, stamps.put key value, ?_⟩
  rw [List.map_take, List.map_cons, others_map_bare, same]
  rfl

theorem Reflects.remove (reflects : store.Reflects recency) (key : κ) :
    (store.remove key).1 = recency.get? key ∧
      (store.remove key).2.Reflects (recency.forget key) := by
  have peeked := reflects.peek? key
  obtain ⟨items, stamps, same⟩ := reflects
  have kept : (recency.forget key).pairs = (Lru.others key items).map bare := by
    rw [others_map_bare, same]
    rfl
  simp only [Lru.remove, Lru.peek?] at peeked ⊢
  split
  next tick value found =>
    refine ⟨by rw [← peeked, found]; rfl, _, ?_, kept.symm⟩
    rw [stamps.without (stamps.entry?_eq_some_iff.mp found)]
    exact stamps.others key
  next absent =>
    refine ⟨by rw [← peeked, absent]; rfl, items, stamps, ?_⟩
    rw [stamps.entry?] at absent
    rw [kept, others_of_lookup absent]

theorem capacity_serve (store : Lru κ α) (request : Request κ α) :
    (store.serve request).2.capacity = store.capacity := by
  cases request with
  | get key =>
    simp only [serve, Lru.get]
    split <;> rfl
  | remove key =>
    simp only [serve, Lru.remove]
    split <;> rfl
  | _ => rfl

theorem capacity_serveAll (store : Lru κ α) (requests : List (Request κ α)) :
    (store.serveAll requests).2.capacity = store.capacity := by
  induction requests generalizing store with
  | nil => rfl
  | cons request rest ih => exact (ih _).trans (store.capacity_serve request)

theorem serveAll_append (store : Lru κ α) (first second : List (Request κ α)) :
    (store.serveAll (first ++ second)).2 = ((store.serveAll first).2.serveAll second).2 := by
  induction first generalizing store with
  | nil => rfl
  | cons request rest ih => exact ih (store.serve request).2

theorem All.serve {P : κ → α → Prop} (holds : store.All P) (request : Request κ α)
    (added : ∀ key value, request = .put key value → P key value) :
    (store.serve request).2.All P := by
  cases request with
  | get key => exact holds.get key
  | put key value => exact holds.put (added key value rfl)
  | remove key => exact holds.remove key
  | contains key => exact holds
  | clear => exact all_clear store
  | size => exact holds

/-- What is asserted of all entries still holds of them if it holds of what is put in. -/
theorem All.serveAll {P : κ → α → Prop} (holds : store.All P) (requests : List (Request κ α))
    (added : ∀ key value, .put key value ∈ requests → P key value) :
    (store.serveAll requests).2.All P := by
  induction requests generalizing store with
  | nil => exact holds
  | cons request rest ih =>
    apply ih
    · apply holds.serve
      intro key value same
      exact added key value (List.mem_cons.mpr (.inl same.symm))
    · intro key value member
      exact added key value (List.mem_cons_of_mem _ member)

/-- The store and its reference answer one request alike, and stay alike. -/
theorem Reflects.serve (reflects : store.Reflects recency) (request : Request κ α) :
    (store.serve request).1 = (recency.serve store.capacity request).1 ∧
      (store.serve request).2.Reflects (recency.serve store.capacity request).2 := by
  cases request with
  | get key =>
    obtain ⟨answer, after⟩ := reflects.get key
    exact ⟨congrArg Reply.value answer, after⟩
  | put key value => exact ⟨rfl, reflects.put key value⟩
  | remove key =>
    obtain ⟨answer, after⟩ := reflects.remove key
    exact ⟨congrArg Reply.value answer, after⟩
  | contains key => exact ⟨congrArg Reply.truth (reflects.contains key), reflects⟩
  | clear => exact ⟨rfl, .clear store⟩
  | size => exact ⟨congrArg Reply.count reflects.size, reflects⟩

theorem Reflects.serveAll (reflects : store.Reflects recency) (requests : List (Request κ α)) :
    (store.serveAll requests).1 = (recency.serveAll store.capacity requests).1 ∧
      (store.serveAll requests).2.Reflects (recency.serveAll store.capacity requests).2 := by
  induction requests generalizing store recency with
  | nil => exact ⟨rfl, reflects⟩
  | cons request rest ih =>
    obtain ⟨answer, after⟩ := reflects.serve request
    obtain ⟨answers, final⟩ := ih after
    rw [store.capacity_serve request] at answers final
    refine ⟨?_, final⟩
    simp only [Lru.serveAll, Recency.serveAll, answer, answers]

/-- A store answers all requests as the list of its pairs by recency does, never holds more than
its capacity, of which zero counts as one, and keeps its two tables in step. -/
theorem serveAll_new (capacity : Nat) (requests : List (Request κ α)) :
    ((new capacity).serveAll requests).1 =
        (Recency.empty.serveAll (max capacity 1) requests).1 ∧
      ((new capacity).serveAll requests).2.size ≤ max capacity 1 ∧
      ((new capacity).serveAll requests).2.Coherent := by
  obtain ⟨answers, reflects⟩ := (reflects_new (α := α) capacity).serveAll requests
  refine ⟨answers, ?_, reflects.coherent⟩
  rw [reflects.size]
  exact Recency.size_serveAll_le (Nat.zero_le _) requests

end Lru
end Tripwire
