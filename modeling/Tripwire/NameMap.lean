/-!
Finite maps from names, kept as entries in strictly increasing name order.

The order makes the representation unique: two maps with the same answer for
every name are equal, and so are two maps of one size as soon as one answers for
the entries of the other.  `get?_insert` and `get?_erase` describe the
operations through `get?`.
-/

namespace Tripwire

universe u v

/-- A finite map whose entries stand in strictly increasing name order. -/
structure NameMap (α : Type u) where
  entries : List (String × α)
  sorted : entries.Pairwise (fun a b => a.1 < b.1)

namespace NameMap

variable {α : Type u} {β : Type v}

instance [DecidableEq α] : DecidableEq (NameMap α) := fun a b =>
  decidable_of_iff (a.entries = b.entries)
    ⟨fun same => by cases a; cases b; cases same; rfl, fun same => same ▸ rfl⟩

def empty : NameMap α := ⟨[], .nil⟩

instance : Inhabited (NameMap α) := ⟨empty⟩

/-- The value of the first entry with the given name. -/
def lookup (name : String) : List (String × α) → Option α
  | [] => none
  | (key, value) :: rest => if name = key then some value else lookup name rest

/-- Puts an entry at its place in a sorted list, replacing one of the same name. -/
def place (name : String) (value : α) : List (String × α) → List (String × α)
  | [] => [(name, value)]
  | (key, old) :: rest =>
    if name < key then (name, value) :: (key, old) :: rest
    else if name = key then (name, value) :: rest
    else (key, old) :: place name value rest

/-- Drops the entries with the given name. -/
def drop (name : String) (entries : List (String × α)) : List (String × α) :=
  entries.filter (fun entry => entry.1 ≠ name)

theorem fst_mem_place {name : String} {value : α} {entries : List (String × α)}
    {entry : String × α} (member : entry ∈ place name value entries) :
    entry.1 = name ∨ entry ∈ entries := by
  induction entries with
  | nil => simp [place] at member; simp [member]
  | cons head rest ih =>
    obtain ⟨key, old⟩ := head
    simp only [place] at member
    split at member
    · rcases List.mem_cons.mp member with rfl | member
      · exact .inl rfl
      · exact .inr member
    · split at member
      · rcases List.mem_cons.mp member with rfl | member
        · exact .inl rfl
        · exact .inr (List.mem_cons_of_mem _ member)
      · rcases List.mem_cons.mp member with rfl | member
        · exact .inr (List.mem_cons_self ..)
        · exact (ih member).imp id (List.mem_cons_of_mem _)

theorem sorted_place {name : String} {value : α} {entries : List (String × α)}
    (sorted : entries.Pairwise (fun a b => a.1 < b.1)) :
    (place name value entries).Pairwise (fun a b => a.1 < b.1) := by
  induction entries with
  | nil => simp [place]
  | cons head rest ih =>
    obtain ⟨key, old⟩ := head
    obtain ⟨below, sortedRest⟩ := List.pairwise_cons.mp sorted
    simp only [place]
    split
    · rename_i before
      refine List.pairwise_cons.mpr ⟨fun entry member => ?_, sorted⟩
      rcases List.mem_cons.mp member with rfl | member
      · exact before
      · exact String.lt_trans before (below entry member)
    · split
      · rename_i same
        exact List.pairwise_cons.mpr ⟨fun entry member => same ▸ below entry member, sortedRest⟩
      · rename_i notBefore notSame
        refine List.pairwise_cons.mpr ⟨fun entry member => ?_, ih sortedRest⟩
        rcases fst_mem_place member with same | member
        · exact same ▸ Std.lt_of_le_of_ne (String.not_lt.mp notBefore) (Ne.symm notSame)
        · exact below entry member

def get? (map : NameMap α) (name : String) : Option α := lookup name map.entries

def contains (map : NameMap α) (name : String) : Bool := (map.get? name).isSome

def insert (map : NameMap α) (name : String) (value : α) : NameMap α :=
  ⟨place name value map.entries, sorted_place map.sorted⟩

def erase (map : NameMap α) (name : String) : NameMap α :=
  ⟨drop name map.entries, map.sorted.filter _⟩

def ofList (entries : List (String × α)) : NameMap α :=
  entries.foldl (fun map entry => map.insert entry.1 entry.2) empty

def toList (map : NameMap α) : List (String × α) := map.entries

def names (map : NameMap α) : List String := map.entries.map (·.1)

def size (map : NameMap α) : Nat := map.entries.length

def mapValues (f : String → α → β) (map : NameMap α) : NameMap β :=
  ⟨map.entries.map (fun entry => (entry.1, f entry.1 entry.2)),
    List.pairwise_map.mpr (map.sorted.imp fun h => h)⟩

@[simp] theorem get?_empty (name : String) : (empty : NameMap α).get? name = none := rfl

theorem lookup_place (name other : String) (value : α) (entries : List (String × α)) :
    lookup other (place name value entries) =
      if other = name then some value else lookup other entries := by
  induction entries with
  | nil => simp [place, lookup]
  | cons head rest ih =>
    obtain ⟨key, old⟩ := head
    simp only [place]
    split
    · simp [lookup]
    · split
      · rename_i same
        subst same
        by_cases h : other = name <;> simp [lookup, h]
      · rename_i notSame
        by_cases h : other = key
        · subst h; simp [lookup, Ne.symm notSame]
        · simp [lookup, h, ih]

@[simp] theorem get?_insert (map : NameMap α) (name other : String) (value : α) :
    (map.insert name value).get? other = if other = name then some value else map.get? other :=
  lookup_place name other value map.entries

theorem lookup_drop (name other : String) (entries : List (String × α)) :
    lookup other (drop name entries) = if other = name then none else lookup other entries := by
  induction entries with
  | nil => simp [drop, lookup]
  | cons head rest ih =>
    obtain ⟨key, old⟩ := head
    by_cases h : key = name
    · subst h
      have same : drop key ((key, old) :: rest) = drop key rest := by simp [drop]
      rw [same, ih]
      by_cases h' : other = key <;> simp [lookup, h']
    · have kept : drop name ((key, old) :: rest) = (key, old) :: drop name rest := by
        simp [drop, h]
      by_cases h' : other = key
      · subst h'; simp [kept, lookup, h]
      · simp [kept, lookup, h', ih]

@[simp] theorem get?_erase (map : NameMap α) (name other : String) :
    (map.erase name).get? other = if other = name then none else map.get? other :=
  lookup_drop name other map.entries

theorem lookup_eq_none {name : String} {entries : List (String × α)}
    (absent : ∀ entry ∈ entries, entry.1 ≠ name) : lookup name entries = none := by
  induction entries with
  | nil => rfl
  | cons head rest ih =>
    obtain ⟨key, old⟩ := head
    simp only [List.mem_cons, forall_eq_or_imp] at absent
    simp [lookup, Ne.symm absent.1, ih absent.2]

theorem entries_eq_of_lookup_eq {left right : List (String × α)}
    (sortedLeft : left.Pairwise (fun a b => a.1 < b.1))
    (sortedRight : right.Pairwise (fun a b => a.1 < b.1))
    (same : ∀ name, lookup name left = lookup name right) : left = right := by
  induction left generalizing right with
  | nil =>
    cases right with
    | nil => rfl
    | cons head rest => have := same head.1; simp [lookup] at this
  | cons head rest ih =>
    obtain ⟨key, value⟩ := head
    obtain ⟨below, sortedRest⟩ := List.pairwise_cons.mp sortedLeft
    cases right with
    | nil => have := same key; simp [lookup] at this
    | cons head' rest' =>
      obtain ⟨key', value'⟩ := head'
      obtain ⟨below', sortedRest'⟩ := List.pairwise_cons.mp sortedRight
      have sameKey : key = key' := by
        rcases Std.lt_trichotomy key key' with before | equal | after
        · have absent : lookup key ((key', value') :: rest') = none := by
            apply lookup_eq_none
            intro entry member equal
            rcases List.mem_cons.mp member with rfl | member
            · exact String.lt_irrefl _ (equal ▸ before)
            · exact String.lt_asymm before (equal ▸ below' entry member)
          exact absurd ((same key).trans absent) (by simp [lookup])
        · exact equal
        · have absent : lookup key' ((key, value) :: rest) = none := by
            apply lookup_eq_none
            intro entry member equal
            rcases List.mem_cons.mp member with rfl | member
            · exact String.lt_irrefl _ (equal ▸ after)
            · exact String.lt_asymm after (equal ▸ below entry member)
          exact absurd ((same key').symm.trans absent) (by simp [lookup])
      subst sameKey
      have sameValue : value = value' := by simpa [lookup] using same key
      subst sameValue
      have sameRest : rest = rest' := ih sortedRest sortedRest' fun name => by
        by_cases h : name = key
        · subst h
          rw [lookup_eq_none, lookup_eq_none]
          · exact fun entry member equal =>
              String.lt_irrefl name (by simpa [equal] using below' entry member)
          · exact fun entry member equal =>
              String.lt_irrefl name (by simpa [equal] using below entry member)
        · simpa [lookup, h] using same name
      rw [sameRest]

theorem mem_of_lookup {name : String} {value : α} {entries : List (String × α)}
    (found : lookup name entries = some value) : (name, value) ∈ entries := by
  induction entries with
  | nil => simp [lookup] at found
  | cons head rest ih =>
    obtain ⟨key, old⟩ := head
    simp only [lookup] at found
    split at found
    next same => cases found; subst same; exact List.mem_cons_self
    next => exact List.mem_cons_of_mem _ (ih found)

theorem lookup_of_mem {name : String} {value : α} {entries : List (String × α)}
    (sorted : entries.Pairwise (fun a b => a.1 < b.1)) (member : (name, value) ∈ entries) :
    lookup name entries = some value := by
  induction entries with
  | nil => simp at member
  | cons head rest ih =>
    obtain ⟨key, old⟩ := head
    obtain ⟨below, sortedRest⟩ := List.pairwise_cons.mp sorted
    rcases List.mem_cons.mp member with equal | later
    · cases equal
      simp [lookup]
    · have before : key < name := below _ later
      have distinct : name ≠ key := fun same => String.lt_irrefl name (same ▸ before)
      simp only [lookup, if_neg distinct]
      exact ih sortedRest later

theorem sublist_of_subset {left right : List (String × α)}
    (sortedLeft : left.Pairwise (fun a b => a.1 < b.1))
    (sortedRight : right.Pairwise (fun a b => a.1 < b.1)) (included : left ⊆ right) :
    left.Sublist right := by
  induction right generalizing left with
  | nil => exact List.eq_nil_of_subset_nil included ▸ .slnil
  | cons head rest ih =>
    obtain ⟨below, sortedRest⟩ := List.pairwise_cons.mp sortedRight
    cases left with
    | nil => exact List.nil_sublist _
    | cons first more =>
      obtain ⟨above, sortedMore⟩ := List.pairwise_cons.mp sortedLeft
      -- Entries above the head of the larger list can only be in its rest.
      have rests {entry : String × α} (larger : head.1 < entry.1)
          (member : entry ∈ head :: rest) : entry ∈ rest :=
        (List.mem_cons.mp member).resolve_left fun same => by simp [same] at larger
      rcases List.mem_cons.mp (included List.mem_cons_self) with rfl | later
      · exact .cons_cons _ (ih sortedMore sortedRest fun entry member =>
          rests (above entry member) (included (List.mem_cons_of_mem _ member)))
      · refine .cons _ (ih sortedLeft sortedRest fun entry member => ?_)
        refine rests ?_ (included member)
        rcases List.mem_cons.mp member with rfl | further
        · exact below _ later
        · exact String.lt_trans (below _ later) (above entry further)

theorem mem_entries_iff (map : NameMap α) (entry : String × α) :
    entry ∈ map.entries ↔ map.get? entry.1 = some entry.2 :=
  ⟨lookup_of_mem map.sorted, mem_of_lookup⟩

/-- Maps that answer alike are equal. -/
@[ext] theorem ext {left right : NameMap α} (same : ∀ name, left.get? name = right.get? name) :
    left = right := by
  obtain ⟨entries, sorted⟩ := left
  obtain ⟨entries', sorted'⟩ := right
  have : entries = entries' := entries_eq_of_lookup_eq sorted sorted' same
  subst this
  rfl

/-- Of two maps of one size, one that answers for the entries of the other is equal to it. -/
theorem eq_of_size_eq {left right : NameMap α} (sizes : left.size = right.size)
    (answers : ∀ entry ∈ right.entries, left.get? entry.1 = some entry.2) : left = right := by
  obtain ⟨entries, sorted⟩ := left
  obtain ⟨entries', sorted'⟩ := right
  have included : entries' ⊆ entries := fun entry member => mem_of_lookup (answers entry member)
  have : entries' = entries := (sublist_of_subset sorted' sorted included).eq_of_length sizes.symm
  subst this
  rfl

end NameMap

/-- A set of names. -/
abbrev NameSet := NameMap Unit

namespace NameSet

/-- The set with the given names added. -/
def addAll (set : NameSet) (names : List String) : NameSet :=
  names.foldl (fun set name => set.insert name ()) set

theorem contains_addAll (set : NameSet) (names : List String) (name : String) :
    (set.addAll names).contains name = (set.contains name || decide (name ∈ names)) := by
  induction names generalizing set with
  | nil => simp [addAll]
  | cons head rest ih =>
    have step : addAll set (head :: rest) = addAll (set.insert head ()) rest := rfl
    rw [step, ih]
    by_cases h : name = head <;> simp [NameMap.contains, h]

end NameSet

end Tripwire
