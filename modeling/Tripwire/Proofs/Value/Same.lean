import Mathlib.Data.List.Forall2
import Mathlib.Data.Option.Basic
import Tripwire.Value.Equality

/-!
Structural identity of values, and the comparison that decides it: sizes and
one-sided look-ups are enough for maps whose names are in order.
-/

namespace Tripwire.Value

/-- The same variant with identical contents: floats bit by bit, lists item by item, maps with the
same names and identical values under them. -/
inductive Same : Value → Value → Prop
  | null : Same null null
  | boolean (b : Bool) : Same (boolean b) (boolean b)
  | integer (n : Int64) : Same (integer n) (integer n)
  | float {x y : Double} (bits : x.bits = y.bits) : Same (float x) (float y)
  | string (s : String) : Same (string s) (string s)
  | list {as bs : List Value} (items : List.Forall₂ Same as bs) : Same (list as) (list bs)
  | map {as bs : Entries none}
      (names : ∀ name, (as.get? name).isSome = (bs.get? name).isSome)
      (values : ∀ name a b, as.get? name = some a → bs.get? name = some b → Same a b) :
      Same (map as) (map bs)

mutual

theorem Same.refl : ∀ a : Value, Same a a
  | .null => .null
  | .boolean b => .boolean b
  | .integer n => .integer n
  | .float _ => .float rfl
  | .string s => .string s
  | .list as => .list (items_refl as)
  | .map as => .map (fun _ => rfl) fun _ _ _ first second =>
      Option.some.inj (first.symm.trans second) ▸ value_refl as first

theorem Same.items_refl : ∀ as : List Value, List.Forall₂ Same as as
  | [] => .nil
  | a :: as => .cons (Same.refl a) (items_refl as)

theorem Same.value_refl : ∀ {floor : Option String} (as : Entries floor) {name : String}
    {a : Value}, as.get? name = some a → Same a a
  | _, .nil, _, _, found => nomatch found
  | _, .cons _ first _ rest, _, _, found => by
    simp only [Entries.get?, Entries.toList, NameMap.lookup] at found
    split at found
    · cases found
      exact Same.refl first
    · exact value_refl rest found

end

mutual

theorem Same.eq : ∀ {a b : Value}, Same a b → a = b
  | .null, _, .null => rfl
  | .boolean _, _, .boolean _ => rfl
  | .integer _, _, .integer _ => rfl
  | .float _, _, .float bits => congrArg _ (Double.ext bits)
  | .string _, _, .string _ => rfl
  | .list _, _, .list items => congrArg _ (items_eq items)
  | .map as, .map bs, .map names values => by
    have same : as.toMap = bs.toMap := by
      ext1 name
      have known := names name
      cases first : as.get? name with
      | none =>
        rw [first, Option.isSome_none, eq_comm, Option.isSome_eq_false_iff] at known
        exact first.trans (Option.isNone_iff_eq_none.mp known).symm
      | some a =>
        rw [first, Option.isSome_some, eq_comm, Option.isSome_iff_exists] at known
        obtain ⟨b, second⟩ := known
        have equal : a = b := value_eq first (values name a b first second)
        exact first.trans (equal ▸ second.symm)
    exact congrArg _ (Entries.toList_inj (congrArg NameMap.entries same))

theorem Same.items_eq : ∀ {as bs : List Value}, List.Forall₂ Same as bs → as = bs
  | [], _, .nil => rfl
  | _ :: _, _, .cons first rest => by rw [first.eq, items_eq rest]

/-- Values under a name of a map are the same only if they are equal. -/
theorem Same.value_eq : ∀ {floor : Option String} {as : Entries floor} {name : String}
    {a b : Value}, as.get? name = some a → Same a b → a = b
  | _, .nil, _, _, _, found, _ => nomatch found
  | _, .cons _ _ _ _, _, _, _, found, same => by
    simp only [Entries.get?, Entries.toList, NameMap.lookup] at found
    split at found
    · cases found
      exact same.eq
    · exact value_eq found same

end

theorem same_iff {a b : Value} : Same a b ↔ a = b :=
  ⟨Same.eq, fun equal => equal ▸ .refl a⟩

theorem rel_same_iff {a b : Option Value} : Option.Rel Same a b ↔ a = b := by
  cases a <;> cases b <;> simp [same_iff]

/-- The comparison of live values with captured ones decides structural identity. -/
theorem unchanged_iff_same {a b : Value} : unchanged a b = true ↔ Same a b := by
  rw [unchanged_iff, same_iff]

/-- A NaN is the same as itself, and not as the one of the other sign. -/
example :
    let nan : Double := Binary64.nan
    unchanged (float nan) (float nan) = true ∧
      unchanged (float nan) (float nan.negate) = false := by
  decide +kernel

end Tripwire.Value
