import Tripwire.Value.Basic

/-!
Equality of values.  `alike` compares floats as numbers.  `unchanged` compares
them bit by bit, and maps by their sizes and by looking up the names of one in
the other; it decides whether two values are the same.
-/

namespace Tripwire.Value

mutual

/-- Equality in which floats compare numerically, so that a NaN differs from itself. -/
def alike : Value → Value → Bool
  | null, null => true
  | boolean a, boolean b => a = b
  | integer a, integer b => a = b
  | float a, float b => a.toFloat == b.toFloat
  | string a, string b => a = b
  | list a, list b => alikeItems a b
  | map a, map b => alikeEntries a b
  | _, _ => false

def alikeItems : List Value → List Value → Bool
  | [], [] => true
  | a :: as, b :: bs => alike a b && alikeItems as bs
  | _, _ => false

def alikeEntries : {low high : Option String} → Entries low → Entries high → Bool
  | _, _, .nil, .nil => true
  | _, _, .cons name a _ as, .cons other b _ bs => name = other && alike a b && alikeEntries as bs
  | _, _, _, _ => false

end

mutual

/-- Equality for the detection of changes, in which a NaN equals itself. -/
def unchanged : Value → Value → Bool
  | float a, float b => a.bits = b.bits
  | list as, list bs => as.length = bs.length && unchangedItems as bs
  | map as, map bs => as.size = bs.size && unchangedEntries as bs
  | a, b => a.alike b

/-- The items in pairs, as long as both lists have one. -/
def unchangedItems : List Value → List Value → Bool
  | a :: as, b :: bs => unchanged a b && unchangedItems as bs
  | _, _ => true

/-- The entries of the one map against the answers of the other. -/
def unchangedEntries : {floor : Option String} → Entries floor → Entries none → Bool
  | _, .nil, _ => true
  | _, .cons name a _ as, bs =>
    (match bs.get? name with
      | some b => unchanged a b
      | none => false) && unchangedEntries as bs

end

mutual

theorem unchanged_iff : ∀ {a b : Value}, unchanged a b = true ↔ a = b
  | null, b => by cases b <;> simp [unchanged, alike]
  | boolean _, b => by cases b <;> simp [unchanged, alike]
  | integer _, b => by cases b <;> simp [unchanged, alike]
  | string _, b => by cases b <;> simp [unchanged, alike]
  | float x, b => by
    cases b with
    | float y => simp [unchanged, Double.ext_iff]
    | _ => simp [unchanged, alike]
  | list as, b => by
    cases b with
    | list bs =>
      simp only [unchanged, Bool.and_eq_true, decide_eq_true_eq, list.injEq]
      constructor
      · rintro ⟨lengths, items⟩
        exact (unchangedItems_iff lengths).mp items
      · rintro rfl
        exact ⟨rfl, (unchangedItems_iff rfl).mpr rfl⟩
    | _ => simp [unchanged, alike]
  | map as, b => by
    cases b with
    | map bs =>
      simp only [unchanged, Bool.and_eq_true, decide_eq_true_eq, map.injEq, unchangedEntries_iff]
      constructor
      · rintro ⟨sizes, answers⟩
        have same : bs.toMap = as.toMap := NameMap.eq_of_size_eq sizes.symm answers
        exact Entries.toList_inj (congrArg NameMap.entries same.symm)
      · rintro rfl
        exact ⟨rfl, fun entry member => NameMap.lookup_of_mem as.sorted_toList member⟩
    | _ => simp [unchanged, alike]

theorem unchangedItems_iff : ∀ {as bs : List Value}, as.length = bs.length →
    (unchangedItems as bs = true ↔ as = bs)
  | [], bs, lengths => by
    cases bs with
    | nil => simp [unchangedItems]
    | cons => cases lengths
  | a :: as, bs, lengths => by
    cases bs with
    | nil => cases lengths
    | cons b bs =>
      simp only [unchangedItems, Bool.and_eq_true, unchanged_iff,
        unchangedItems_iff (Nat.succ.inj lengths), List.cons.injEq]

theorem unchangedEntries_iff : ∀ {floor : Option String} {as : Entries floor} {bs : Entries none},
    unchangedEntries as bs = true ↔ ∀ entry ∈ as.toList, bs.get? entry.1 = some entry.2
  | _, .nil, _ => by simp [unchangedEntries, Entries.toList]
  | _, .cons name a _ as, bs => by
    simp only [unchangedEntries, Entries.toList, Bool.and_eq_true, unchangedEntries_iff,
      List.forall_mem_cons]
    refine and_congr_left fun _ => ?_
    cases bs.get? name with
    | none => simp
    | some b => simp [unchanged_iff, eq_comm]

end

instance : DecidableEq Value := fun _ _ => decidable_of_iff _ unchanged_iff

end Tripwire.Value
