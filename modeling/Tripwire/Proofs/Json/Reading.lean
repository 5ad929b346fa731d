import Mathlib.Data.List.Forall2
import Tripwire.Json.Number
import Tripwire.Json.Reader
import Tripwire.Proofs.Number.Digits

/-!
JSON text reads back as what was written.

Each reader is followed over one written piece in front of any rest.  After a
number the rest decides where the number ends, so there it begins with a comma
or with a closing brace.
-/

namespace Tripwire

namespace Numeral

/-- A count as it is written: digits only. -/
def ofCount (n : Nat) : Numeral := ⟨false, Nat.toDigits 10 n, none, none⟩

theorem toCount?_ofCount {n : Nat} (fits : n < UInt64.size) : (ofCount n).toCount? = some n := by
  have whole : (ofCount n).toInt? = some (n : Int) := by
    simp [toInt?, ofCount, Decimal.value_toDigits]
  rw [toCount?, whole, Option.bind_some, if_pos ⟨Int.natCast_nonneg n, fits⟩, Int.toNat_natCast]

theorem lt_of_toCount? {numeral : Numeral} {n : Nat} (read : numeral.toCount? = some n) :
    n < UInt64.size := by
  obtain ⟨whole, _, kept⟩ := Option.bind_eq_some_iff.mp read
  split at kept
  case isTrue fits =>
    cases kept
    exact fits.2
  case isFalse => cases kept

end Numeral

namespace Json

variable {cs rest : List Char}

/-! ## Texts in quotes -/

namespace TextItem

/-- How an item of a text stands for a character by itself. -/
inductive Spells : TextItem → Char → Prop
  | char (c : Char) : Spells (.char c) c
  | unit (c : Char) (low : c.toNat < 0xd800) : Spells (.unit c.toNat) c

end TextItem

theorem characters?_unit {code : Nat} {items : List TextItem} (low : code < 0xd800) :
    characters? (.unit code :: items) = (characters? items).map (Char.ofNat code :: ·) := by
  have noHigh : ¬ (0xd800 ≤ code ∧ code < 0xdc00) := by omega
  have noLow : ¬ (0xdc00 ≤ code ∧ code < 0xe000) := by omega
  have noHalf : ¬ (0xd800 ≤ code ∧ code < 0xe000) := by omega
  match items with
  | [] => simp only [characters?, if_neg noHalf]
  | .char c :: items => simp only [characters?, if_neg noHalf]
  | .unit next :: items => simp only [characters?, if_neg noHigh, if_neg noLow]

theorem characters?_of_spells {items : List TextItem}
    (spells : List.Forall₂ TextItem.Spells items cs) : characters? items = some cs := by
  induction spells with
  | nil => rfl
  | cons head tail ih =>
    cases head with
    | char c => simp only [characters?, ih, Option.map_some]
    | unit c low => rw [characters?_unit low, ih, Char.ofNat_toNat, Option.map_some]

theorem hexValue?_hexDigit {n : Nat} (small : n < 16) : hexValue? (hexDigit n) = some n := by
  have all : ∀ n < 16, hexValue? (hexDigit n) = some n := by decide
  exact all n small

theorem unit?_escape {n : Nat} (small : n < 256) :
    unit? ('0' :: '0' :: hexDigit (n / 16) :: hexDigit (n % 16) :: rest) = some (n, rest) := by
  have zero : hexValue? '0' = some 0 := by decide
  have high : hexValue? (hexDigit (n / 16)) = some (n / 16) := hexValue?_hexDigit (by omega)
  have low : hexValue? (hexDigit (n % 16)) = some (n % 16) := hexValue?_hexDigit (by omega)
  simp only [unit?, zero, high, low, Option.bind_eq_bind, Option.bind_some, Option.some.injEq,
    Prod.mk.injEq, and_true]
  omega

theorem textItems?_short {mark c : Char} (short : shortEscape? mark = some c) (fuel : Nat) :
    textItems? (fuel + 1) ('\\' :: mark :: rest) =
      (textItems? fuel rest).map fun (items, rest) => (.char c :: items, rest) := by
  have noUnit : mark ≠ 'u' := by
    rintro rfl
    cases short
  rw [textItems?]
  · rw [short]
    cases textItems? fuel rest <;> rfl
  · exact noUnit

theorem textItems?_plain {c : Char} (printable : 32 ≤ c.toNat) (quote : c ≠ '"')
    (backslash : c ≠ '\\') (fuel : Nat) :
    textItems? (fuel + 1) (c :: rest) =
      (textItems? fuel rest).map fun (items, rest) => (.char c :: items, rest) := by
  have usable : ¬ (c.toNat < 32 ∨ c = '\\') := not_or.mpr ⟨Nat.not_lt.mpr printable, backslash⟩
  rw [textItems?]
  · rw [if_neg usable]
    cases textItems? fuel rest <;> rfl
  · exact quote
  · exact fun _ equal _ => backslash equal
  · exact fun _ _ equal _ => backslash equal

/-- What one written character is read as in front of a text. -/
theorem textItems?_escape (c : Char) : ∃ item : TextItem, item.Spells c ∧
    ∀ fuel rest, textItems? (fuel + 1) (escape c ++ rest) =
      (textItems? fuel rest).map fun (items, rest) => (item :: items, rest) := by
  unfold escape
  split
  case h_8 quote backslash _ _ _ _ _ =>
    split
    case isTrue control =>
      refine ⟨.unit c.toNat, .unit c (by omega), fun fuel rest => ?_⟩
      show textItems? (fuel + 1) ('\\' :: 'u' :: '0' :: '0' :: _ :: _ :: rest) = _
      rw [textItems?, unit?_escape (show c.toNat < 256 by omega)]
      show (textItems? fuel rest).bind _ = _
      cases textItems? fuel rest <;> rfl
    case isFalse printable =>
      exact ⟨.char c, .char c, fun fuel rest =>
        textItems?_plain (Nat.not_lt.mp printable) quote backslash fuel⟩
  all_goals exact ⟨.char _, .char _, fun fuel rest => textItems?_short (by decide) fuel⟩

theorem textItems?_escaped {fuel : Nat} (enough : cs.length < fuel) (rest : List Char) :
    ∃ items, List.Forall₂ TextItem.Spells items cs ∧
      textItems? fuel (cs.flatMap escape ++ '"' :: rest) = some (items, rest) := by
  induction cs generalizing fuel with
  | nil =>
    obtain ⟨fuel, rfl⟩ := Nat.exists_eq_succ_of_ne_zero (Nat.ne_of_gt enough)
    exact ⟨[], .nil, rfl⟩
  | cons c cs ih =>
    obtain ⟨fuel, rfl⟩ := Nat.exists_eq_succ_of_ne_zero (Nat.ne_of_gt (Nat.zero_lt_of_lt enough))
    obtain ⟨item, spells, reads⟩ := textItems?_escape c
    obtain ⟨items, others, read⟩ := ih (Nat.lt_of_succ_lt_succ enough)
    refine ⟨item :: items, .cons spells others, ?_⟩
    rw [List.flatMap_cons, List.append_assoc, reads, read, Option.map_some]

theorem length_le_length_escaped (cs : List Char) : cs.length ≤ (cs.flatMap escape).length := by
  have filled (c : Char) : 1 ≤ (escape c).length := by
    unfold escape
    split
    case h_8 => split <;> simp
    all_goals simp
  induction cs with
  | nil => exact Nat.zero_le _
  | cons c cs ih =>
    rw [List.flatMap_cons, List.length_append, List.length_cons]
    have := filled c
    omega

/-- A text that was written in quotes reads back, whatever characters it holds. -/
theorem text?_escaped (text : String) (rest : List Char) :
    text? (text.toList.flatMap escape ++ '"' :: rest) = some (some text, rest) := by
  have enough : text.toList.length < (text.toList.flatMap escape ++ '"' :: rest).length + 1 := by
    have := length_le_length_escaped text.toList
    rw [List.length_append]
    omega
  obtain ⟨items, spells, read⟩ := textItems?_escaped enough rest
  simp only [text?, read, Option.map_some, characters?_of_spells spells, String.ofList_toList]

theorem toList_quote (text : String) :
    (quote text).toList = '"' :: (text.toList.flatMap escape ++ ['"']) :=
  String.toList_ofList

/-! ## Numbers -/

/-- Where a number ends: what follows is neither a digit nor a point nor an exponent mark. -/
def Ends (rest : List Char) : Prop :=
  ∀ c ∈ rest.head?, c.isDigit = false ∧ c ≠ '.' ∧ c ≠ 'e' ∧ c ≠ 'E'

theorem whole?_toDigits (n : Nat) (ends : Ends rest) :
    whole? (Nat.toDigits 10 n ++ rest) = some (Nat.toDigits 10 n, rest) := by
  have run : Decimal.digitRun (Nat.toDigits 10 n ++ rest) = (Nat.toDigits 10 n, rest) :=
    Decimal.digitRun_append (fun c => Decimal.isDigit_of_mem_toDigits)
      fun c follows => (ends c follows).1
  rw [whole?, run]
  rcases Nat.eq_zero_or_pos n with rfl | positive
  · rfl
  · obtain ⟨first, others, digits, _⟩ := Decimal.toDigits_eq_cons n
    have noZero : first ≠ '0' := by
      rintro rfl
      exact Decimal.head_toDigits positive (digits ▸ rfl)
    rw [digits]
    split
    case h_1 equal => cases equal
    case h_2 equal => exact absurd (List.cons.inj (Prod.mk.inj equal).1).1 noZero
    case h_3 equal => exact absurd (List.cons.inj (Prod.mk.inj equal).1).1 noZero
    case h_4 equal =>
      cases equal
      rfl

theorem fraction?_of_ends (ends : Ends rest) : fraction? rest = some (none, rest) := by
  unfold fraction?
  split
  · exact absurd rfl (ends '.' rfl).2.1
  · rfl

theorem exponent?_of_ends (ends : Ends rest) : exponent? rest = some (none, rest) := by
  match rest with
  | [] => rfl
  | c :: rest =>
    obtain ⟨_, _, lower, upper⟩ := ends c rfl
    rw [exponent?, if_neg (not_or.mpr ⟨lower, upper⟩)]

theorem number?_toDigits (n : Nat) (ends : Ends rest) :
    number? (Nat.toDigits 10 n ++ rest) = some (.ofCount n, rest) := by
  have noSign : ∀ more, Nat.toDigits 10 n ++ rest ≠ '-' :: more := by
    intro more equal
    obtain ⟨first, others, digits, digit⟩ := Decimal.toDigits_eq_cons n
    rw [digits] at equal
    rw [(List.cons.inj equal).1] at digit
    exact absurd digit (by decide)
  rw [number?]
  · simp only [whole?_toDigits n ends, fraction?_of_ends ends, exponent?_of_ends ends,
      Option.bind_some, Option.map_some, Numeral.ofCount]
  · exact noSign

/-! ## Objects -/

/-- A text that is read as a document where a comma or a closing brace follows. -/
def Writes (text : List Char) (document : Json) : Prop :=
  ∀ fuel c rest, c = ',' ∨ c = '\x7d' →
    value? (fuel + 1) (text ++ c :: rest) = some (document, c :: rest)

theorem ends_of_separator {c : Char} (separator : c = ',' ∨ c = '\x7d') (rest : List Char) :
    Ends (c :: rest) := by
  rintro _ ⟨⟩
  rcases separator with rfl | rfl <;> decide

theorem writes_quote (text : String) : Writes (quote text).toList (.string (some text)) := by
  intro fuel c rest _
  have read := text?_escaped text (c :: rest)
  rw [toList_quote, List.cons_append, List.append_assoc]
  show (text? (text.toList.flatMap escape ++ '"' :: c :: rest)).map _ = _
  rw [read, Option.map_some]

theorem value?_of_digit {c : Char} (digit : c.isDigit = true) (fuel : Nat) :
    value? (fuel + 1) (c :: rest) =
      (number? (c :: rest)).map fun (numeral, rest) => (number numeral, rest) := by
  have other {d : Char} (different : d.isDigit = false) : c ≠ d := by
    rintro rfl
    exact Bool.false_ne_true (different.symm.trans digit)
  have noSpace : skipSpace (c :: rest) = c :: rest := by
    apply List.dropWhile_cons_of_neg
    simp [isSpace, other]
  rw [value?, noSpace]
  split
  case h_7 => rfl
  all_goals
    rename_i equal
    exact absurd (List.cons.inj equal).1 (other (by decide))

theorem writes_toString (n : Nat) : Writes (toString n).toList (.number (.ofCount n)) := by
  intro fuel c rest separator
  have read := number?_toDigits n (ends_of_separator separator rest)
  rw [Nat.toString_eq_repr, Nat.toList_repr]
  obtain ⟨first, others, digits, digit⟩ := Decimal.toDigits_eq_cons n
  rw [digits, List.cons_append] at read ⊢
  rw [value?_of_digit digit, read, Option.map_some]

theorem entries?_cons {text more : List Char} {document : Json} {c : Char} {fuel : Nat}
    (name : String) (writes : Writes text document) (separator : c = ',' ∨ c = '\x7d') :
    entries? (fuel + 2) ((quote name).toList ++ ':' :: text ++ c :: more) =
      if c = '\x7d' then some ([(some name, document)], more)
      else (entries? (fuel + 1) more).map fun (entries, rest) =>
        ((some name, document) :: entries, rest) := by
  have key := text?_escaped name (':' :: text ++ c :: more)
  have start : (quote name).toList ++ ':' :: text ++ c :: more =
      '"' :: (name.toList.flatMap escape ++ '"' :: (':' :: text ++ c :: more)) := by
    simp only [toList_quote, List.cons_append, List.append_assoc, List.nil_append]
  rw [start, entries?]
  show (text? (name.toList.flatMap escape ++ '"' :: (':' :: text ++ c :: more))).bind _ = _
  rw [key, Option.bind_some]
  show (value? (fuel + 1) (text ++ c :: more)).bind _ = _
  rw [writes fuel c more separator, Option.bind_some]
  rcases separator with rfl | rfl <;> rfl

section Written

variable {α : Type} (name : α → String) (text : α → List Char) {document : α → Json}

/-- Entries as they stand in an object, with commas between them. -/
def entriesText (items : List α) : List Char :=
  [','].intercalate (items.map fun item => (quote (name item)).toList ++ ':' :: text item)

theorem entriesText_cons (first second : α) (others : List α) (rest : List Char) :
    entriesText name text (first :: second :: others) ++ rest =
      (quote (name first)).toList ++ ':' :: text first ++
        ',' :: (entriesText name text (second :: others) ++ rest) := by
  simp only [entriesText, List.map_cons, List.intercalate_cons_cons, List.append_assoc,
    List.cons_append, List.nil_append]

theorem length_le_length_entriesText (first : α) (others : List α) :
    others.length ≤ (entriesText name text (first :: others)).length := by
  induction others generalizing first with
  | nil => exact Nat.zero_le _
  | cons second others ih =>
    have longer := ih second
    have spelled := entriesText_cons name text first second others []
    rw [List.append_nil, List.append_nil] at spelled
    rw [spelled, List.length_append, List.length_cons, List.length_cons]
    omega

theorem entries?_entriesText (first : α) (others : List α)
    (writes : ∀ item ∈ first :: others, Writes (text item) (document item)) {fuel : Nat}
    (enough : others.length ≤ fuel) (rest : List Char) :
    entries? (fuel + 2) (entriesText name text (first :: others) ++ '\x7d' :: rest) =
      some ((first :: others).map fun item => (some (name item), document item), rest) := by
  induction others generalizing first fuel with
  | nil =>
    rw [entriesText, List.map_singleton, List.intercalate_singleton,
      entries?_cons (name first) (writes first List.mem_cons_self) (.inr rfl)]
    rfl
  | cons second others ih =>
    obtain ⟨fuel, rfl⟩ := Nat.exists_eq_add_of_le' (Nat.one_le_of_lt enough)
    have read := ih second (fun item member => writes item (List.mem_cons_of_mem _ member))
      (Nat.le_of_succ_le_succ enough)
    rw [entriesText_cons,
      entries?_cons (name first) (writes first List.mem_cons_self) (.inl rfl), read]
    rfl

theorem entriesText_eq_cons (first : α) (others : List α) :
    ∃ more, entriesText name text (first :: others) = '"' :: more := by
  cases others with
  | nil =>
    refine ⟨(name first).toList.flatMap escape ++ '"' :: ':' :: text first, ?_⟩
    simp only [entriesText, List.map_cons, List.map_nil, List.intercalate_singleton,
      toList_quote, List.cons_append, List.append_assoc, List.nil_append]
  | cons second others =>
    have spelled := entriesText_cons name text first second others []
    rw [List.append_nil, toList_quote] at spelled
    exact ⟨_, spelled⟩

/-- An object of one or more entries reads back. -/
theorem read?_entriesText (first : α) (others : List α)
    (writes : ∀ item ∈ first :: others, Writes (text item) (document item)) :
    read? (String.ofList ('\x7b' :: entriesText name text (first :: others) ++ ['\x7d'])) =
      some (.object ((first :: others).map fun item => (some (name item), document item))) := by
  have enough : others.length ≤
      2 * (entriesText name text (first :: others) ++ ['\x7d']).length := by
    have longer := length_le_length_entriesText name text first others
    rw [List.length_append]
    omega
  have read := entries?_entriesText name text first others writes enough []
  obtain ⟨more, spelled⟩ := entriesText_eq_cons name text first others
  rw [spelled] at read ⊢
  rw [read?, String.toList_ofList]
  show ((entries? (2 * ('"' :: more ++ ['\x7d']).length + 2) ('"' :: more ++ ['\x7d'])).map _).bind
    _ = _
  rw [read, Option.map_some, Option.bind_some]
  rfl

end Written

end Json

end Tripwire
