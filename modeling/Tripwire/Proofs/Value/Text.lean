import Mathlib.Data.List.Forall2
import Tripwire.Proofs.Number.Double
import Tripwire.Proofs.Number.Value
import Tripwire.Value.Equality
import Tripwire.Value.Text

/-!
Texts of values that compare as equal.

Two values that are `alike` are the same but for zeros of opposite sign, and
those show in their texts.  The texts of alike values even keep the values apart
when more text follows, so that lists and maps can be read item by item
(`told_of_alike`).
-/

namespace Tripwire

/-- Whatever follows the texts of two things, only equal things have equal texts. -/
def Told {α : Type} (text : α → List Char) (a b : α) : Prop :=
  ∀ rest other, text a ++ rest = text b ++ other → a = b ∧ rest = other

namespace Told

variable {α β : Type} {text : α → List Char} {a b : α}

theorem refl (text : α → List Char) (a : α) : Told text a a :=
  fun _ _ same => ⟨rfl, List.append_cancel_left same⟩

theorem eq (told : Told text a b) (same : text a = text b) : a = b :=
  (told [] [] (by rw [same])).1

theorem intercalate {separator : List Char} {as bs : List α}
    (told : List.Forall₂ (Told text) as bs) :
    Told (fun items : List α => separator.intercalate (items.map text)) as bs := by
  induction told with
  | nil => exact refl _ _
  | @cons a b as bs first rest ih =>
    intro after other same
    cases rest with
    | nil =>
      simp only [List.map_cons, List.map_nil, List.intercalate_singleton] at same
      obtain ⟨rfl, followed⟩ := first _ _ same
      exact ⟨rfl, followed⟩
    | cons second more =>
      simp only [List.map_cons, List.intercalate_cons_cons, List.append_assoc] at same
      obtain ⟨rfl, separated⟩ := first _ _ same
      have tails := List.append_cancel_left separated
      simp only [← List.map_cons] at tails
      obtain ⟨equal, followed⟩ := ih _ _ tails
      exact ⟨congrArg _ equal, followed⟩

end Told

namespace Value

open Binary64 Float.Model UnpackedFloat

def chars (value : Value) : List Char := value.text.toList

def entryChars (entry : String × Value) : List Char :=
  entry.1.toList ++ '=' :: entry.2.chars

theorem itemTexts_eq (items : List Value) : itemTexts items = items.map text := by
  induction items with
  | nil => rfl
  | cons item rest ih => rw [itemTexts, ih, List.map_cons]

theorem entryTexts_eq : ∀ {floor : Option String} (entries : Entries floor),
    entryTexts entries = entries.toList.map fun entry => entry.1 ++ "=" ++ entry.2.text
  | _, .nil => rfl
  | _, .cons _ _ _ rest => by rw [entryTexts, entryTexts_eq rest, Entries.toList, List.map_cons]

theorem chars_list (items : List Value) :
    (list items).chars = '[' :: (", ".toList.intercalate (items.map chars) ++ [']']) := by
  rw [chars, text, itemTexts_eq, String.toList_append, String.toList_append,
    String.toList_intercalate, List.map_map]
  rfl

theorem chars_map (entries : Entries none) : (map entries).chars =
    '\x7b' :: (", ".toList.intercalate (entries.toList.map entryChars) ++ ['\x7d']) := by
  rw [chars, text, entryTexts_eq, String.toList_append, String.toList_append,
    String.toList_intercalate, List.map_map]
  have same (entry : String × Value) :
      (entry.1 ++ "=" ++ entry.2.text).toList = entryChars entry := by
    rw [String.toList_append, String.toList_append, List.append_assoc]
    rfl
  simp only [Function.comp_def, same]
  rfl

theorem chars_zero {x : Double} {s : Sign} (zero : x.toFloat.toModel.unpack = .zero s) :
    (float x).chars = if s == .negative then "-0.0".toList else "0.0".toList := by
  have parts : dyadic? x.toFloat = some ⟨s == .negative, 0, 0⟩ := by rw [dyadic?, zero]
  have whole : (⟨s == .negative, 0, 0⟩ : Binary64.Dyadic).toInt? = some 0 := by cases s <;> rfl
  rw [chars, text, Float.valueText, parts]
  simp only [whole]
  cases s <;> rfl

/-- The texts of equal floats tell zeros of opposite sign apart. -/
theorem told_of_beq {x y : Double} (equal : (x.toFloat == y.toFloat) = true) :
    Told chars (float x) (float y) := by
  have number := number_of_beq equal
  rcases eq_or_zero_of_beq equal with same | ⟨s, t, first, second⟩
  · rw [Double.eq_of_toFloat number (eq_of_unpack same)]
    exact .refl _ _
  · intro rest other same
    rw [chars_zero first, chars_zero second] at same
    cases s <;> cases t
    · rw [Double.eq_of_toFloat number (eq_of_unpack (first.trans second.symm))]
      exact ⟨rfl, List.append_cancel_left same⟩
    · exact absurd (List.cons.inj same).1 (by decide)
    · exact absurd (List.cons.inj same).1 (by decide)
    · rw [Double.eq_of_toFloat number (eq_of_unpack (first.trans second.symm))]
      exact ⟨rfl, List.append_cancel_left same⟩

mutual

theorem told_of_alike : ∀ {a b : Value}, alike a b = true → Told chars a b
  | null, b, same => by
    cases b <;> cases same
    exact .refl _ _
  | boolean _, b, same => by
    cases b <;> simp only [alike, decide_eq_true_eq, Bool.false_eq_true] at same
    exact same ▸ .refl _ _
  | integer _, b, same => by
    cases b <;> simp only [alike, decide_eq_true_eq, Bool.false_eq_true] at same
    exact same ▸ .refl _ _
  | string _, b, same => by
    cases b <;> simp only [alike, decide_eq_true_eq, Bool.false_eq_true] at same
    exact same ▸ .refl _ _
  | float _, b, same => by
    cases b <;> simp only [alike, Bool.false_eq_true] at same
    exact told_of_beq same
  | list as, b, same => by
    cases b with
    | list bs =>
      intro rest other equal
      rw [chars_list, chars_list, List.cons_append, List.cons_append, List.append_assoc,
        List.append_assoc] at equal
      obtain ⟨items, after⟩ := Told.intercalate (told_items same) _ _ (List.cons.inj equal).2
      exact ⟨congrArg _ items, (List.cons.inj after).2⟩
    | _ => cases same
  | map as, b, same => by
    cases b with
    | map bs =>
      intro rest other equal
      rw [chars_map, chars_map, List.cons_append, List.cons_append, List.append_assoc,
        List.append_assoc] at equal
      obtain ⟨entries, after⟩ := Told.intercalate (told_entries same) _ _ (List.cons.inj equal).2
      exact ⟨congrArg _ (Entries.toList_inj entries), (List.cons.inj after).2⟩
    | _ => cases same

theorem told_items : ∀ {as bs : List Value}, alikeItems as bs = true →
    List.Forall₂ (Told chars) as bs
  | [], bs, same => by
    cases bs with
    | nil => exact .nil
    | cons => cases same
  | a :: as, bs, same => by
    cases bs with
    | nil => cases same
    | cons b bs =>
      rw [alikeItems, Bool.and_eq_true] at same
      exact .cons (told_of_alike same.1) (told_items same.2)

theorem told_entries : ∀ {low high : Option String} {as : Entries low} {bs : Entries high},
    alikeEntries as bs = true → List.Forall₂ (Told entryChars) as.toList bs.toList
  | _, _, .nil, bs, same => by
    cases bs with
    | nil => exact .nil
    | cons => cases same
  | _, _, .cons name a _ as, bs, same => by
    cases bs with
    | nil => cases same
    | cons other b _ bs =>
      rw [alikeEntries, Bool.and_eq_true, Bool.and_eq_true, decide_eq_true_eq] at same
      obtain ⟨⟨rfl, values⟩, more⟩ := same
      refine .cons (fun rest after equal => ?_) (told_entries more)
      simp only [entryChars, List.append_assoc, List.cons_append] at equal
      obtain ⟨rfl, followed⟩ :=
        told_of_alike values _ _ (List.cons.inj (List.append_cancel_left equal)).2
      exact ⟨rfl, followed⟩

end

/-- Alike values with one text are the same. -/
theorem eq_of_alike_of_text {a b : Value} (same : alike a b = true) (texts : a.text = b.text) :
    a = b :=
  (told_of_alike same).eq (congrArg String.toList texts)

end Value
end Tripwire
