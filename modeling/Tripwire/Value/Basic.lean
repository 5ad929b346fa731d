import Tripwire.Kind
import Tripwire.NameMap
import Tripwire.Number.Double

/-!
Runtime values.  A map carries the order of its names in its type, so that maps
with the same entries are equal, at any depth.
-/

namespace Tripwire

mutual

/-- A runtime value. -/
inductive Value
  | null
  | boolean (value : Bool)
  | integer (value : Int64)
  | float (value : Double)
  | string (value : String)
  | list (items : List Value)
  | map (entries : Entries none)

/-- The entries of a map in increasing order of their names, all of them above the floor. -/
inductive Entries : Option String → Type
  | nil {floor : Option String} : Entries floor
  | cons {floor : Option String} (name : String) (value : Value)
      (above : ∀ low ∈ floor, low < name) (rest : Entries (some name)) : Entries floor

end

namespace Entries

variable {floor : Option String}

def toList : {floor : Option String} → Entries floor → List (String × Value)
  | _, nil => []
  | _, cons name value _ rest => (name, value) :: rest.toList

def size (entries : Entries floor) : Nat := entries.toList.length

def get? (entries : Entries floor) (name : String) : Option Value :=
  NameMap.lookup name entries.toList

theorem above_of_mem : ∀ {floor : Option String} (entries : Entries floor)
    {entry : String × Value}, entry ∈ entries.toList → ∀ low ∈ floor, low < entry.1
  | _, nil, _, member => nomatch member
  | _, cons name _ above rest, entry, member => fun low isFloor => by
    rcases List.mem_cons.mp member with rfl | later
    · exact above low isFloor
    · exact String.lt_trans (above low isFloor) (rest.above_of_mem later name rfl)

theorem sorted_toList : ∀ {floor : Option String} (entries : Entries floor),
    entries.toList.Pairwise (fun a b => a.1 < b.1)
  | _, nil => .nil
  | _, cons name _ _ rest =>
    .cons (fun _ later => rest.above_of_mem later name rfl) rest.sorted_toList

theorem toList_inj : ∀ {floor : Option String} {left right : Entries floor},
    left.toList = right.toList → left = right
  | _, nil, nil, _ => rfl
  | _, cons _ _ _ _, cons _ _ _ _, same => by
    obtain ⟨heads, rests⟩ := List.cons.inj same
    cases heads
    rw [toList_inj rests]

/-- The same entries as a map of their own. -/
def toMap (entries : Entries floor) : NameMap Value := ⟨entries.toList, entries.sorted_toList⟩

/-- Entries in name order, all above the floor. -/
def ofSorted : (entries : List (String × Value)) → {floor : Option String} →
    entries.Pairwise (fun a b => a.1 < b.1) →
    (∀ entry ∈ entries, ∀ low ∈ floor, low < entry.1) → Entries floor
  | [], _, _, _ => nil
  | (name, value) :: rest, _, sorted, above =>
    cons name value (above _ List.mem_cons_self)
      (ofSorted rest (List.pairwise_cons.mp sorted).2 fun entry later low isFloor => by
        cases isFloor
        exact (List.pairwise_cons.mp sorted).1 entry later)

def ofMap (map : NameMap Value) : Entries none := ofSorted map.entries map.sorted nofun

end Entries

namespace Value

instance : Inhabited Value := ⟨null⟩

/-- A map value from entries in any order; of entries with one name the last counts. -/
def ofEntries (entries : List (String × Value)) : Value := map (.ofMap (.ofList entries))

def kind : Value → Kind
  | null => .null
  | integer _ | float _ => .number
  | string _ => .string
  | boolean _ => .boolean
  | list _ | map _ => .other

def isNull : Value → Bool
  | null => true
  | _ => false

def isNumber : Value → Bool
  | integer _ | float _ => true
  | _ => false

end Value

end Tripwire
