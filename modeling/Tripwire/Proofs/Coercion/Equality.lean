import Tripwire.Coercion.Rules
import Tripwire.Proofs.Number.Integers
import Tripwire.Proofs.Value.Text

/-!
Strict and loose equality under the standard rules.

Strictly equal values are loosely equal as well, except that lists and maps are
compared by their texts, which tell zeros of opposite sign apart.  Numbers that
are loosely equal are strictly equal, unless an integer that is no double stands
beside the float that it is rounded to.
-/

namespace Tripwire

open Binary64

namespace Coercion

/-! ### Numbers -/

/-- An integer that is no double, beside the float that it is rounded to. -/
def Blurred : Value → Value → Prop
  | .integer n, .float x => ¬Exact n ∧ x.toFloat = ofInt64 n
  | .float x, .integer n => ¬Exact n ∧ x.toFloat = ofInt64 n
  | _, _ => False

theorem looseEquals_of_numbers {left right : Value} (leftNumber : left.isNumber = true)
    (rightNumber : right.isNumber = true) :
    looseEquals left right = true ↔ left.numericCompare? right = some .eq := by
  rw [looseEquals, leftNumber, rightNumber]
  exact decide_eq_true_iff

theorem strictEquals_of_floats (x y : Double) : strictEquals (.float x) (.float y) = true ↔
    (∃ n, toInt64? x.toFloat = some n ∧ toInt64? y.toFloat = some n) ∨
      toInt64? x.toFloat = none ∧ toInt64? y.toFloat = none ∧ (x.toFloat == y.toFloat) = true := by
  simp only [strictEquals, Value.isNumber, Bool.and_self, if_true, Value.normalize]
  cases toInt64? x.toFloat with
  | none => cases toInt64? y.toFloat <;> simp
  | some m =>
    cases toInt64? y.toFloat with
    | none => simp
    | some n =>
      simp only [decide_eq_true_eq, Option.some.injEq, reduceCtorEq, false_and, or_false]
      exact ⟨fun same => ⟨m, rfl, same.symm⟩, fun ⟨k, first, second⟩ => first.trans second.symm⟩

theorem strictEquals_of_integer (n : Int64) (x : Double) :
    (strictEquals (.integer n) (.float x) = true ↔ toInt64? x.toFloat = some n) ∧
      (strictEquals (.float x) (.integer n) = true ↔ toInt64? x.toFloat = some n) := by
  simp only [strictEquals, Value.isNumber, Bool.and_self, if_true, Value.normalize]
  cases toInt64? x.toFloat with
  | none => simp
  | some m =>
    simp only [decide_eq_true_eq, Option.some.injEq]
    exact ⟨eq_comm, trivial⟩

/-- Numbers are loosely equal when they are strictly equal, and vice versa unless rounding blurs
them. -/
theorem looseEquals_iff_strictEquals {left right : Value} (leftNumber : left.isNumber = true)
    (rightNumber : right.isNumber = true) :
    (strictEquals left right = true → looseEquals left right = true) ∧
      (¬Blurred left right → looseEquals left right = true → strictEquals left right = true) := by
  rw [looseEquals_of_numbers leftNumber rightNumber]
  cases left with
  | integer a =>
    cases right with
    | integer b =>
      have strict : strictEquals (.integer a) (.integer b) = decide (a = b) := rfl
      simp [strict, Value.numericCompare?, Int64.toInt_inj]
    | float x =>
      have compared : Value.numericCompare? (.integer a) (.float x) =
          Binary64.compare? (ofInt64 a) x.toFloat := rfl
      rw [compared, compare?_eq_iff, (strictEquals_of_integer a x).1]
      constructor
      · exact beq_ofInt64_of_toInt64?
      · intro plain loose
        exact (beq_ofInt64_cases loose).resolve_right plain
    | _ => cases rightNumber
  | float x =>
    cases right with
    | integer b =>
      have compared : Value.numericCompare? (.float x) (.integer b) =
          Binary64.compare? x.toFloat (ofInt64 b) := rfl
      rw [compared, compare?_eq_iff, (strictEquals_of_integer b x).2]
      constructor
      · intro strict
        exact beq_symm (beq_ofInt64_of_toInt64? strict)
      · intro plain loose
        exact (beq_ofInt64_cases (beq_symm loose)).resolve_right plain
    | float y =>
      have compared : Value.numericCompare? (.float x) (.float y) =
          Binary64.compare? x.toFloat y.toFloat := rfl
      rw [compared, compare?_eq_iff, strictEquals_of_floats]
      constructor
      · rintro (⟨n, first, second⟩ | ⟨-, -, equal⟩)
        · have denotes := toInt64?_eq_some_iff.mp first
          exact (denotes.beq_iff (toInt64?_eq_some_iff.mp second)).mpr rfl
        · exact equal
      · intro _ equal
        have same : toInt64? x.toFloat = toInt64? y.toFloat := by
          rw [toInt64?, toInt?_of_beq equal]
          rfl
        cases found : toInt64? x.toFloat with
        | none => exact .inr ⟨rfl, same ▸ found, equal⟩
        | some n => exact .inl ⟨n, rfl, same ▸ found⟩
    | _ => cases rightNumber
  | _ => cases leftNumber

/-! ### Other values -/

/-- A strictly equal value that is no number is alike. -/
theorem alike_of_strictEquals {left right : Value} (strict : strictEquals left right = true)
    (notNumber : left.isNumber = false) :
    left.kind = right.kind ∧ left.alike right = true := by
  cases left with
  | null => cases right <;> first | exact ⟨rfl, rfl⟩ | cases strict
  | integer _ | float _ => cases notNumber
  | _ =>
    cases right with
    | null => cases strict
    | _ =>
      simp only [strictEquals, Value.isNumber, Bool.false_and, Bool.false_eq_true, if_false,
        Bool.and_eq_true, decide_eq_true_eq] at strict
      exact strict

theorem isNumber_of_strictEquals {left right : Value} (strict : strictEquals left right = true)
    (number : left.isNumber = true) : right.isNumber = true := by
  cases left <;> cases number <;> cases right <;> first | rfl | cases strict

theorem looseEquals_of_other {left right : Value} (leftOther : left.kind = .other)
    (rightOther : right.kind = .other) :
    looseEquals left right = true ↔ left.text = right.text := by
  cases left <;> cases leftOther <;> cases right <;> cases rightOther <;>
    simp [looseEquals, Value.isNumber, isBoolean, Value.isNull]

/-- Strictly equal values are loosely equal, lists and maps if they are the same. -/
theorem looseEquals_of_strictEquals {left right : Value}
    (strict : strictEquals left right = true) :
    looseEquals left right = true ↔ (left.kind = .other → left = right) := by
  by_cases number : left.isNumber = true
  · have loose := (looseEquals_iff_strictEquals number
      (isNumber_of_strictEquals strict number)).1 strict
    cases left <;> cases number <;> exact ⟨fun _ => nofun, fun _ => loose⟩
  obtain ⟨kinds, alike⟩ := alike_of_strictEquals strict (Bool.eq_false_iff.mpr number)
  by_cases other : left.kind = .other
  · rw [looseEquals_of_other other (kinds ▸ other)]
    exact ⟨fun texts _ => Value.eq_of_alike_of_text alike texts,
      fun same => congrArg Value.text (same other)⟩
  · refine ⟨fun _ isOther => absurd isOther other, fun _ => ?_⟩
    cases left with
    | null => cases right <;> first | rfl | cases alike
    | boolean b =>
      cases right <;> simp only [Value.alike, decide_eq_true_eq, Bool.false_eq_true] at alike
      simp [looseEquals, Value.isNumber, isBoolean, alike]
    | string text =>
      cases right <;> simp only [Value.alike, decide_eq_true_eq, Bool.false_eq_true] at alike
      simp [looseEquals, Value.isNumber, isBoolean, Value.isNull, alike]
    | integer _ | float _ => exact absurd rfl number
    | list _ | map _ => exact absurd rfl other

/-- Strictly equal values are loosely equal, lists and maps just if they are the same.  Loosely
equal numbers are strictly equal, except an integer that is no double and the float that it is
rounded to; an integer of at most 53 binary digits is a double. -/
theorem strictEquals_and_looseEquals (left right : Value) :
    (strictEquals left right = true →
      (looseEquals left right = true ↔ (left.kind = .other → left = right))) ∧
    (left.isNumber = true → right.isNumber = true → ¬Blurred left right →
      looseEquals left right = true → strictEquals left right = true) ∧
    ∀ n : Int64, n.toInt.natAbs ≤ 2 ^ 53 → Exact n :=
  ⟨looseEquals_of_strictEquals,
    fun leftNumber rightNumber => (looseEquals_iff_strictEquals leftNumber rightNumber).2,
    fun _ => exact_of_fits⟩

/-- Integers beyond 53 digits beside floats: one that is a double beside the same number, and one
that is none beside a smaller number. -/
theorem strictEquals_and_looseEquals_of_large :
    (¬Blurred (.integer 9007199254740994) (.float (9007199254740994 : Float)) ∧
      strictEquals (.integer 9007199254740994) (.float (9007199254740994 : Float)) = true ∧
      looseEquals (.integer 9007199254740994) (.float (9007199254740994 : Float)) = true) ∧
    ¬Blurred (.integer 9007199254740993) (.float (5 : Float)) ∧
      looseEquals (.integer 9007199254740993) (.float (5 : Float)) = false ∧
    Exact 3 := by
  have whole : toInt64? 9007199254740994 = some 9007199254740994 := by decide +kernel
  have plain : ¬Blurred (.integer 9007199254740994) (.float (9007199254740994 : Float)) :=
    fun blurred => blurred.1 (exact_of_toInt64? whole)
  have apart : ¬Blurred (.integer 9007199254740993) (.float (5 : Float)) :=
    fun blurred => absurd blurred.2 (by decide +kernel)
  obtain ⟨strictly, loosely, exact⟩ := strictEquals_and_looseEquals (.integer 9007199254740994)
    (.float (9007199254740994 : Float))
  have strict := loosely rfl rfl plain (by decide +kernel)
  refine ⟨⟨plain, strict, (strictly strict).mpr nofun⟩, apart, ?_, exact 3 (by decide)⟩
  refine Bool.eq_false_iff.mpr fun loose => ?_
  have impossible := (strictEquals_and_looseEquals _ _).2.1 rfl rfl apart loose
  exact absurd impossible (by decide +kernel)

/-- Lists with zeros of opposite sign are strictly equal, but have different texts.  An integer
that is no double is loosely equal to the double nearest to it. -/
theorem strictEquals_against_looseEquals :
    (strictEquals (.list [.float (0.0 : Float)]) (.list [.float (-0.0 : Float)]) = true ∧
      looseEquals (.list [.float (0.0 : Float)]) (.list [.float (-0.0 : Float)]) = false) ∧
    looseEquals (.integer 9007199254740993) (.float (9007199254740992.0 : Float)) = true ∧
      strictEquals (.integer 9007199254740993) (.float (9007199254740992.0 : Float)) = false := by
  decide +kernel

end Coercion
end Tripwire
