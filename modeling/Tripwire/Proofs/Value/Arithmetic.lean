import Tripwire.Proofs.Number.Double
import Tripwire.Proofs.Number.Range
import Tripwire.Value.Equality
import Tripwire.Value.Number

/-!
Arithmetic on integers against the exact results.

Where the exact result is a word, it is the result.  Else the operands are
rounded to doubles and so is the result, which becomes an integer again where it
is one.  That happens to quotients of large dividends, and to a `Hidden`
overflow, which the rounding brings back into the range.
-/

namespace Tripwire

open Binary64

/-! ### Exact results -/

namespace Integer

variable {a b n : Int64}

theorem quotient?_eq_some_iff :
    quotient? a b = some n ↔ b.toInt ≠ 0 ∧ n.toInt = a.toInt.tdiv b.toInt := by
  unfold quotient?
  split
  next zero => simp [zero]
  next divisor => rw [narrow?_eq_some_iff, and_iff_right divisor]

theorem exists_toInt {m : Int} (lower : -2 ^ 63 ≤ m) (upper : m < 2 ^ 63) :
    ∃ n : Int64, n.toInt = m :=
  ⟨Int64.ofInt m, Int64.toInt_ofInt_of_le lower upper⟩

/-- Only one quotient is out of range. -/
theorem exists_quotient? (divisor : b.toInt ≠ 0) :
    (∃ n, quotient? a b = some n) ∨ a = Int64.minValue ∧ b = -1 := by
  have lower := a.le_toInt
  have upper := a.toInt_lt
  by_cases fits : -2 ^ 63 ≤ a.toInt.tdiv b.toInt ∧ a.toInt.tdiv b.toInt < 2 ^ 63
  · obtain ⟨n, value⟩ := exists_toInt fits.1 fits.2
    exact .inl ⟨n, quotient?_eq_some_iff.mpr ⟨divisor, value⟩⟩
  · have size : (a.toInt.tdiv b.toInt).natAbs = a.toInt.natAbs / b.toInt.natAbs :=
      Int.natAbs_tdiv _ _
    have large : 2 ^ 63 ≤ a.toInt.natAbs / b.toInt.natAbs := by omega
    rw [Nat.le_div_iff_mul_le (Int.natAbs_pos.mpr divisor)] at large
    have least : a.toInt = -2 ^ 63 := by omega
    have unit : b.toInt = 1 ∨ b.toInt = -1 := by omega
    rcases unit with one | minus
    · rw [one, Int.tdiv_one] at fits
      exact absurd ⟨lower, upper⟩ fits
    · exact .inr ⟨Int64.toInt_inj.mp least, Int64.toInt_inj.mp minus⟩

theorem remainder?_eq_some_iff :
    remainder? a b = some n ↔ (∃ m, quotient? a b = some m) ∧ n.toInt = a.toInt.tmod b.toInt := by
  unfold remainder?
  rw [Option.bind_eq_some_iff]
  simp only [narrow?_eq_some_iff, exists_and_right]

theorem divide?_eq_some_iff :
    divide? a b = some n ↔ b.toInt ≠ 0 ∧ a.toInt = n.toInt * b.toInt := by
  unfold divide?
  constructor
  · intro found
    split at found
    next exact =>
      obtain ⟨divisor, quotient⟩ := quotient?_eq_some_iff.mp found
      have rest := (remainder?_eq_some_iff.mp exact).2
      have whole := Int.tmod_add_mul_tdiv a.toInt b.toInt
      rw [← rest, ← quotient, Int64.toInt_zero, Int.zero_add, Int.mul_comm] at whole
      exact ⟨divisor, whole.symm⟩
    next => cases found
  · rintro ⟨divisor, product⟩
    have quotient : quotient? a b = some n := by
      rw [quotient?_eq_some_iff, product, Int.mul_tdiv_cancel _ divisor]
      exact ⟨divisor, rfl⟩
    have rest : remainder? a b = some 0 := by
      rw [remainder?_eq_some_iff, product, Int.mul_tmod_left]
      exact ⟨⟨n, quotient⟩, rfl⟩
    rw [if_pos rest, quotient]

end Integer

namespace Value

/-- The exact result of an operation on integers, if there is one. -/
def exactResult? (op : BinaryOperator) (a b : Int) : Option ℚ :=
  match op with
  | .add => some (a + b)
  | .subtract => some (a - b)
  | .multiply => some (a * b)
  | .divide => if b = 0 then none else some (a / b)
  | .remainder => if b = 0 then none else some (a.tmod b : Int)
  | _ => none

variable {op : BinaryOperator} {a b n : Int64}

theorem exactResult?_of_wholeResult? (found : wholeResult? op a b = some n) :
    exactResult? op a.toInt b.toInt = some (n.toInt : ℚ) := by
  cases op with
  | add =>
    rw [Integer.narrow?_eq_some_iff.mp found, Int.cast_add]
    rfl
  | subtract =>
    rw [Integer.narrow?_eq_some_iff.mp found, Int.cast_sub]
    rfl
  | multiply =>
    rw [Integer.narrow?_eq_some_iff.mp found, Int.cast_mul]
    rfl
  | divide =>
    obtain ⟨divisor, product⟩ := Integer.divide?_eq_some_iff.mp found
    have some : (b.toInt : ℚ) ≠ 0 := by exact_mod_cast divisor
    rw [exactResult?, if_neg divisor, product, Int.cast_mul, mul_div_cancel_right₀ _ some]
  | remainder =>
    obtain ⟨⟨m, quotient⟩, rest⟩ := Integer.remainder?_eq_some_iff.mp found
    rw [exactResult?, if_neg (Integer.quotient?_eq_some_iff.mp quotient).1, rest]
  | _ => cases found

/-- An exact result that is a word is found, but for the one remainder without a quotient. -/
theorem wholeResult?_of_exactResult?
    (exact : exactResult? op a.toInt b.toInt = some (n.toInt : ℚ)) :
    wholeResult? op a b = some n ∨
      op = .remainder ∧ a = Int64.minValue ∧ b = -1 ∧ n = 0 := by
  cases op with
  | add =>
    rw [exactResult?, Option.some.injEq] at exact
    exact .inl (Integer.narrow?_eq_some_iff.mpr (by exact_mod_cast exact.symm))
  | subtract =>
    rw [exactResult?, Option.some.injEq] at exact
    exact .inl (Integer.narrow?_eq_some_iff.mpr (by exact_mod_cast exact.symm))
  | multiply =>
    rw [exactResult?, Option.some.injEq] at exact
    exact .inl (Integer.narrow?_eq_some_iff.mpr (by exact_mod_cast exact.symm))
  | divide =>
    simp only [exactResult?] at exact
    split at exact
    next => cases exact
    next divisor =>
      have some : (b.toInt : ℚ) ≠ 0 := by exact_mod_cast divisor
      rw [Option.some.injEq, div_eq_iff some] at exact
      exact .inl (Integer.divide?_eq_some_iff.mpr ⟨divisor, by exact_mod_cast exact⟩)
  | remainder =>
    simp only [exactResult?] at exact
    split at exact
    next => cases exact
    next divisor =>
      rw [Option.some.injEq, Int.cast_inj] at exact
      rcases Integer.exists_quotient? (a := a) divisor with quotient | ⟨least, minus⟩
      · exact .inl (Integer.remainder?_eq_some_iff.mpr ⟨quotient, exact.symm⟩)
      · subst least minus
        exact .inr ⟨rfl, rfl, rfl, Int64.toInt_inj.mp exact.symm⟩
  | _ => cases exact

/-! ### Rounded results -/

theorem arithmetic_of_wholeResult? (found : wholeResult? op a b = some n) :
    arithmetic op (integer a) (integer b) = integer n := by
  rw [arithmetic, found]

theorem normalize_float_eq_integer_iff {x : Float} :
    normalize (float x) = integer n ↔ toInt64? x = some n := by
  rw [normalize, Double.toFloat_ofFloat]
  cases toInt64? x <;> simp

theorem normalize_float_of_none {x : Float} (none : toInt64? x = none) :
    normalize (float x) = float x := by
  rw [normalize, Double.toFloat_ofFloat, none]

theorem arithmetic_eq_integer_iff (none : wholeResult? op a b = none) :
    arithmetic op (integer a) (integer b) = integer n ↔
      toInt64? (rounded op (ofInt64 a) (ofInt64 b)) = some n := by
  rw [arithmetic, none]
  exact normalize_float_eq_integer_iff

/-- The exact result of an overflow is near the range, and below it unless it is a product. -/
structure Overshoots (op : BinaryOperator) (q : Int) : Prop where
  outside : q < -2 ^ 63 ∨ 2 ^ 63 ≤ q
  near : q.natAbs ≤ 2 ^ 63 + 4096
  below : op = .multiply ∨ (op = .add ∨ op = .subtract) ∧ q < -2 ^ 63

/-- A sum, difference or product that is no word, though the rounded one is. -/
def Hidden (op : BinaryOperator) (a b : Int64) : Prop :=
  op ≠ .divide ∧ (∀ n : Int64, exactResult? op a.toInt b.toInt ≠ some (n.toInt : ℚ)) ∧
    toInt64? (rounded op (ofInt64 a) (ofInt64 b)) ≠ none

theorem lt_limit {q : ℚ} (small : q ≤ 2 ^ 126) : q < 2 ^ 1023 :=
  small.trans_lt (pow_lt_pow_right₀ one_lt_two (by decide))

theorem bounds_of_add (found : toInt64? (ofInt64 a + ofInt64 b) = some n) :
    -(2 ^ 63 + 4096) ≤ a.toInt + b.toInt ∧ a.toInt + b.toInt < 2 ^ 63 := by
  have bounded : |rounding a.toInt + rounding b.toInt| ≤ 2 ^ 126 := by
    have first := abs_rounding_le (natAbs_toInt_le a)
    have second := abs_rounding_le (natAbs_toInt_le b)
    have both := abs_add_le (rounding a.toInt) (rounding b.toInt)
    linarith
  have denotes := denotes_add (denotes_ofInt64 a) (denotes_ofInt64 b) (lt_limit bounded)
  exact bounds_of_sum (natAbs_toInt_le a) (natAbs_toInt_le b)
    ((toInt64?_eq_some_iff.mp found).unique denotes)

theorem bounds_of_subtract (found : toInt64? (ofInt64 a - ofInt64 b) = some n) :
    -(2 ^ 63 + 4096) ≤ a.toInt - b.toInt ∧ a.toInt - b.toInt < 2 ^ 63 := by
  have bounded : |rounding a.toInt - rounding b.toInt| ≤ 2 ^ 126 := by
    have first := abs_rounding_le (natAbs_toInt_le a)
    have second := abs_rounding_le (natAbs_toInt_le b)
    have both := abs_sub (rounding a.toInt) (rounding b.toInt)
    linarith
  have denotes := denotes_sub (denotes_ofInt64 a) (denotes_ofInt64 b) (lt_limit bounded)
  have opposite : rounding a.toInt - rounding b.toInt =
      rounding a.toInt + rounding (-b.toInt : Int) := by
    rw [Int.cast_neg, rounding_neg, sub_eq_add_neg]
  rw [opposite] at denotes
  rw [Int.sub_eq_add_neg]
  exact bounds_of_sum (natAbs_toInt_le a) (by rw [Int.natAbs_neg]; exact natAbs_toInt_le b)
    ((toInt64?_eq_some_iff.mp found).unique denotes)

theorem bounds_of_multiply (found : toInt64? (ofInt64 a * ofInt64 b) = some n) :
    (a.toInt * b.toInt).natAbs ≤ 2 ^ 63 + 4096 := by
  have bounded : |rounding a.toInt * rounding b.toInt| ≤ 2 ^ 126 := by
    have first := abs_rounding_le (natAbs_toInt_le a)
    have second := abs_rounding_le (natAbs_toInt_le b)
    calc |rounding a.toInt * rounding b.toInt| = |rounding a.toInt| * |rounding b.toInt| :=
          abs_mul _ _
      _ ≤ 2 ^ 63 * 2 ^ 63 := mul_le_mul first second (abs_nonneg _) (by positivity)
      _ = 2 ^ 126 := by norm_num
  have denotes := denotes_mul (denotes_ofInt64 a) (denotes_ofInt64 b) (lt_limit bounded)
  exact bounds_of_product ((toInt64?_eq_some_iff.mp found).unique denotes)

theorem toInt64?_nan : toInt64? Binary64.nan = none := by decide +kernel

/-- Division by zero gives no integer. -/
theorem toInt64?_rounded_zero (x : Float) :
    toInt64? (rounded .divide x (ofInt64 0)) = none ∧
      toInt64? (rounded .remainder x (ofInt64 0)) = none := by
  have zero : (ofInt64 0 == 0) = true := by decide +kernel
  rw [rounded, rounded, if_pos zero, if_pos zero]
  exact ⟨toInt64?_nan, toInt64?_nan⟩

theorem overshoots_of_hidden (hidden : Hidden op a b) :
    ∃ q : Int, exactResult? op a.toInt b.toInt = some (q : ℚ) ∧ Overshoots op q := by
  obtain ⟨notDivide, noWord, word⟩ := hidden
  obtain ⟨n, found⟩ := Option.ne_none_iff_exists'.mp word
  have outside {q : Int} (exact : exactResult? op a.toInt b.toInt = some (q : ℚ)) :
      q < -2 ^ 63 ∨ 2 ^ 63 ≤ q := by
    by_contra inside
    obtain ⟨m, value⟩ := Integer.exists_toInt (m := q) (by omega) (by omega)
    exact noWord m (by rw [exact, value])
  cases op with
  | add =>
    have exact : exactResult? .add a.toInt b.toInt = some ((a.toInt + b.toInt : Int) : ℚ) := by
      rw [Int.cast_add]
      rfl
    obtain ⟨lower, upper⟩ := bounds_of_add found
    have below := (outside exact).resolve_right (not_le.mpr upper)
    exact ⟨_, exact, .inl below, by omega, .inr ⟨.inl rfl, below⟩⟩
  | subtract =>
    have exact : exactResult? .subtract a.toInt b.toInt = some ((a.toInt - b.toInt : Int) : ℚ) := by
      rw [Int.cast_sub]
      rfl
    obtain ⟨lower, upper⟩ := bounds_of_subtract found
    have below := (outside exact).resolve_right (not_le.mpr upper)
    exact ⟨_, exact, .inl below, by omega, .inr ⟨.inr rfl, below⟩⟩
  | multiply =>
    have exact : exactResult? .multiply a.toInt b.toInt = some ((a.toInt * b.toInt : Int) : ℚ) := by
      rw [Int.cast_mul]
      rfl
    exact ⟨_, exact, outside exact, bounds_of_multiply found, .inl rfl⟩
  | divide => exact absurd rfl notDivide
  | remainder =>
    by_cases zero : b.toInt = 0
    · obtain rfl : b = 0 := Int64.toInt_inj.mp zero
      exact absurd (toInt64?_rounded_zero (ofInt64 a)).2 word
    · have exact : exactResult? .remainder a.toInt b.toInt =
          some ((a.toInt.tmod b.toInt : Int) : ℚ) := if_neg zero
      have size : (a.toInt.tmod b.toInt).natAbs = a.toInt.natAbs % b.toInt.natAbs :=
        Int.natAbs_tmod _ _
      have less := Nat.mod_lt a.toInt.natAbs (Int.natAbs_pos.mpr zero)
      have most := natAbs_toInt_le b
      rcases outside exact with low | high <;> omega
  | _ => exact absurd toInt64?_nan word

theorem one_le_abs_rounding (divisor : b.toInt ≠ 0) : 1 ≤ |rounding b.toInt| := by
  rw [abs_rounding_intCast]
  have one : (2 : ℚ) ^ 0 ≤ b.toInt.natAbs := by exact_mod_cast Int.natAbs_pos.mpr divisor
  exact pow_le_near 0 one

theorem denotes_divide (divisor : b.toInt ≠ 0) :
    Denotes (rounded .divide (ofInt64 a) (ofInt64 b)).toModel.unpack
      (rounding (rounding a.toInt / rounding b.toInt)) := by
  have one := one_le_abs_rounding divisor
  have some : rounding b.toInt ≠ 0 := abs_pos.mp (one_pos.trans_le one)
  have bounded : |rounding a.toInt / rounding b.toInt| ≤ 2 ^ 126 := by
    rw [abs_div]
    calc |rounding a.toInt| / |rounding b.toInt| ≤ |rounding a.toInt| :=
          div_le_self (abs_nonneg _) one
      _ ≤ 2 ^ 63 := abs_rounding_le (natAbs_toInt_le a)
      _ ≤ 2 ^ 126 := pow_le_pow_right₀ one_le_two (by decide)
  have zero : Denotes (0 : Float).toModel.unpack 0 := Denotes.zero .positive
  have notZero : ¬(ofInt64 b == 0) = true := fun equal =>
    some (((denotes_ofInt64 b).beq_iff zero).mp equal)
  rw [rounded, if_neg notZero]
  exact denotes_div (denotes_ofInt64 a) (denotes_ofInt64 b) some (lt_limit bounded)

/-- A quotient that is no integer becomes one where its dividend has more than 53 binary digits
and the rounded quotient of the rounded operands is that integer. -/
structure Rounds (op : BinaryOperator) (a b n : Int64) : Prop where
  divide : op = .divide
  divisor : b.toInt ≠ 0
  broken : ¬b.toInt ∣ a.toInt
  large : 2 ^ 53 ≤ a.toInt.natAbs
  value : (n.toInt : ℚ) = rounding (rounding a.toInt / rounding b.toInt)

/-- Where no integer is the quotient but the rounded one is, it came by rounding. -/
theorem rounds_of_divide (none : wholeResult? .divide a b = none)
    (found : toInt64? (rounded .divide (ofInt64 a) (ofInt64 b)) = some n) :
    Rounds .divide a b n := by
  have divisor : b.toInt ≠ 0 := by
    intro zero
    obtain rfl : b = 0 := Int64.toInt_inj.mp zero
    rw [(toInt64?_rounded_zero (ofInt64 a)).1] at found
    cases found
  have broken : ¬b.toInt ∣ a.toInt := by
    rintro ⟨m, product⟩
    rcases Integer.exists_quotient? (a := a) divisor with ⟨k, quotient⟩ | ⟨rfl, rfl⟩
    · have value := (Integer.quotient?_eq_some_iff.mp quotient).2
      rw [product, Int.mul_tdiv_cancel_left _ divisor] at value
      rw [← value, Int.mul_comm] at product
      have whole : wholeResult? .divide a b = some k :=
        Integer.divide?_eq_some_iff.mpr ⟨divisor, product⟩
      rw [none] at whole
      cases whole
    · have beyond : toInt64? (rounded .divide (ofInt64 Int64.minValue) (ofInt64 (-1))) =
          Option.none := by decide +kernel
      rw [beyond] at found
      cases found
  have value := (toInt64?_eq_some_iff.mp found).unique (denotes_divide divisor)
  refine ⟨rfl, divisor, broken, ?_, value⟩
  by_contra small
  exact broken (dvd_of_quotient (not_le.mp small) divisor (natAbs_toInt_le b) value)

/-- The rounded remainder is exact where no quotient fits into a word. -/
theorem toInt64?_rounded_remainder :
    toInt64? (rounded .remainder (ofInt64 Int64.minValue) (ofInt64 (-1))) = some 0 := by
  decide +kernel

theorem arithmetic_eq_integer_iff_exact (plain : ¬Hidden op a b) :
    arithmetic op (integer a) (integer b) = integer n ↔
      exactResult? op a.toInt b.toInt = some (n.toInt : ℚ) ∨ Rounds op a b n := by
  cases whole : wholeResult? op a b with
  | some m =>
    have exact := exactResult?_of_wholeResult? whole
    rw [arithmetic_of_wholeResult? whole, exact]
    constructor
    · intro same
      cases same
      exact .inl rfl
    · rintro (same | ⟨rfl, divisor, broken, -, -⟩)
      · rw [Option.some.injEq, Int.cast_inj, Int64.toInt_inj] at same
        rw [same]
      · have product := (Integer.divide?_eq_some_iff.mp whole).2
        exact absurd ⟨m.toInt, product.trans (Int.mul_comm _ _)⟩ broken
  | none =>
    rw [arithmetic_eq_integer_iff whole]
    constructor
    · intro found
      by_cases word : ∃ m : Int64, exactResult? op a.toInt b.toInt = some (m.toInt : ℚ)
      · obtain ⟨m, exact⟩ := word
        rcases wholeResult?_of_exactResult? exact with known | ⟨rfl, rfl, rfl, rfl⟩
        · rw [whole] at known
          cases known
        · rw [toInt64?_rounded_remainder] at found
          cases found
          exact .inl exact
      · by_cases divide : op = .divide
        · subst divide
          exact .inr (rounds_of_divide whole found)
        · exact absurd ⟨divide, not_exists.mp word, by rw [found]; nofun⟩ plain
    · rintro (exact | ⟨rfl, divisor, -, -, value⟩)
      · rcases wholeResult?_of_exactResult? exact with known | ⟨rfl, rfl, rfl, rfl⟩
        · rw [whole] at known
          cases known
        · exact toInt64?_rounded_remainder
      · rw [toInt64?_eq_some_iff, value]
        exact denotes_divide divisor

theorem arithmetic_cases (op : BinaryOperator) (a b : Int64) :
    (∃ n, arithmetic op (integer a) (integer b) = integer n) ∨
      ∃ x, arithmetic op (integer a) (integer b) = float x := by
  cases whole : wholeResult? op a b with
  | some n => exact .inl ⟨n, arithmetic_of_wholeResult? whole⟩
  | none =>
    cases found : toInt64? (rounded op (ofInt64 a) (ofInt64 b)) with
    | some n => exact .inl ⟨n, (arithmetic_eq_integer_iff whole).mpr found⟩
    | none =>
      refine .inr ⟨rounded op (ofInt64 a) (ofInt64 b), ?_⟩
      rw [arithmetic, whole]
      exact normalize_float_of_none found

/-- On integers the result is an integer if that is the exact result, or if it is the rounded
quotient of a large dividend that the divisor does not divide; else it is a float.  Nothing is
said of hidden overflows, which lie near the range and below it unless they are products. -/
theorem arithmetic_of_integers (op : BinaryOperator) (a b : Int64) :
    (¬Hidden op a b → ∀ n, arithmetic op (integer a) (integer b) = integer n ↔
      exactResult? op a.toInt b.toInt = some (n.toInt : ℚ) ∨ Rounds op a b n) ∧
    ((∃ n, arithmetic op (integer a) (integer b) = integer n) ∨
      ∃ x, arithmetic op (integer a) (integer b) = float x) ∧
    (Hidden op a b → ∃ q : Int, exactResult? op a.toInt b.toInt = some (q : ℚ) ∧ Overshoots op q) :=
  ⟨fun plain _ => arithmetic_eq_integer_iff_exact plain, arithmetic_cases op a b,
    overshoots_of_hidden⟩

/-- Half of an odd number of more than 53 digits, and a sum that is hidden. -/
theorem rounds_of_half :
    (¬Hidden .divide 9007199254740993 2 ∧
      arithmetic .divide (integer 9007199254740993) (integer 2) = integer 4503599627370496 ∧
      Rounds .divide 9007199254740993 2 4503599627370496) ∧
    Hidden .add Int64.minValue (-1) ∧
      ∃ q : Int, exactResult? .add Int64.minValue.toInt (-1 : Int64).toInt = some (q : ℚ) ∧
        Overshoots .add q := by
  have plain : ¬Hidden .divide 9007199254740993 2 := fun hidden => hidden.1 rfl
  have half : arithmetic .divide (integer 9007199254740993) (integer 2) =
      integer 4503599627370496 := by decide +kernel
  have cases := ((arithmetic_of_integers .divide 9007199254740993 2).1 plain _).mp half
  have rounds := cases.resolve_left fun exact => by
    have value : (9007199254740993 / 2 : ℚ) = 4503599627370496 := Option.some.inj exact
    norm_num at value
  have hidden : Hidden .add Int64.minValue (-1) := by
    refine ⟨nofun, fun n exact => ?_, by decide +kernel⟩
    have sum : -9223372036854775808 + -1 = n.toInt := by exact_mod_cast Option.some.inj exact
    have lower := n.le_toInt
    omega
  exact ⟨⟨plain, half, rounds⟩, hidden,
    (arithmetic_of_integers .add Int64.minValue (-1)).2.2 hidden⟩

/-- Half of an odd number is rounded to an integer, and a sum below the range into it. -/
theorem arithmetic_against_exact :
    (arithmetic .divide (integer 9007199254740993) (integer 2) = integer 4503599627370496 ∧
      exactResult? .divide 9007199254740993 2 = some (4503599627370496 + 1 / 2)) ∧
    arithmetic .add (integer Int64.minValue) (integer (-1)) = integer Int64.minValue ∧
      exactResult? .add (-9223372036854775808) (-1) = some (-9223372036854775809) := by
  refine ⟨⟨by decide +kernel, ?_⟩, by decide +kernel, ?_⟩
  · norm_num [exactResult?]
  · norm_num [exactResult?]

end Value
end Tripwire
