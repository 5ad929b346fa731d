/-!
A bounded store that drops what was touched longest ago.  Every entry carries
the tick of its last touch, and a second table lists the keys by tick, oldest
first.
-/

namespace Tripwire

universe u v

structure Lru (κ : Type u) (α : Type v) where
  capacity : Nat
  entries : List (κ × Nat × α)
  order : List (Nat × κ)
  clock : Nat

namespace Lru

variable {κ : Type u} {α : Type v} [DecidableEq κ]

/-- An empty store; it has room for one entry at least. -/
def new (capacity : Nat) : Lru κ α := ⟨max capacity 1, [], [], 0⟩

def size (store : Lru κ α) : Nat := store.entries.length

/-- The tick and the value of a key, without touching it. -/
def entry? (store : Lru κ α) (key : κ) : Option (Nat × α) := store.entries.lookup key

def peek? (store : Lru κ α) (key : κ) : Option α := (store.entry? key).map (·.2)

def contains (store : Lru κ α) (key : κ) : Bool := (store.entry? key).isSome

def others (key : κ) (entries : List (κ × Nat × α)) : List (κ × Nat × α) :=
  entries.filter fun entry => entry.1 ≠ key

/-- The order without one tick. -/
def without (tick : Nat) (order : List (Nat × κ)) : List (Nat × κ) :=
  order.filter fun entry => entry.1 ≠ tick

/-- Gives a key a value and the present tick, which is later than any other. -/
def touch (store : Lru κ α) (key : κ) (value : α) : Lru κ α :=
  let order :=
    match store.entry? key with
    | some (tick, _) => without tick store.order
    | none => store.order
  { store with
    entries := (key, store.clock, value) :: others key store.entries
    order := order ++ [(store.clock, key)] }

def advance (store : Lru κ α) : Lru κ α := { store with clock := store.clock + 1 }

/-- Looks up a value, which then counts as touched last. -/
def get (store : Lru κ α) (key : κ) : Option α × Lru κ α :=
  let store := store.advance
  match store.peek? key with
  | some value => (some value, store.touch key value)
  | none => (none, store)

def evict (capacity : Nat) :
    List (κ × Nat × α) → List (Nat × κ) → List (κ × Nat × α) × List (Nat × κ)
  | entries, [] => (entries, [])
  | entries, (tick, key) :: order =>
    if entries.length ≤ capacity then (entries, (tick, key) :: order)
    else evict capacity (others key entries) order

/-- Stores a value, which then counts as touched last. -/
def put (store : Lru κ α) (key : κ) (value : α) : Lru κ α :=
  let store := store.advance.touch key value
  let (entries, order) := evict store.capacity store.entries store.order
  { store with entries := entries, order := order }

def remove (store : Lru κ α) (key : κ) : Option α × Lru κ α :=
  match store.entry? key with
  | some (tick, value) =>
    (some value,
      { store with
        entries := others key store.entries
        order := without tick store.order })
  | none => (none, store)

def clear (store : Lru κ α) : Lru κ α := { store with entries := [], order := [] }

end Lru

end Tripwire
