import Tripwire.Proofs.Expr.Reads

/-!
When the modes agree.

Under the standard rules the mode decides only whether an operator follows a
plan or the permissive rules.  Both come to the same, unless arithmetic meets
null or a boolean, a relation meets a boolean, or a complement is taken of a
text or a boolean (`Neutral`).  An evaluation without such an application takes
the same course in both modes.
-/

namespace Tripwire

/-! ### Values as numbers -/

namespace Value

theorem isNumber_of_ofNumericText? {text : String} {number : Value}
    (spelled : ofNumericText? text = some number) : number.isNumber = true := by
  simp only [ofNumericText?] at spelled
  split at spelled
  · cases spelled
  · split at spelled
    · obtain ⟨x, _, rfl⟩ := Option.map_eq_some_iff.mp spelled
      rfl
    · split at spelled
      · cases spelled
        rfl
      · obtain ⟨x, _, rfl⟩ := Option.map_eq_some_iff.mp spelled
        rfl

theorem numericLike?_of_isNumber {number : Value} (counts : number.isNumber = true) :
    number.numericLike? = some number := by
  cases number with
  | integer n => rfl
  | float x => rfl
  | _ => cases counts

end Value

namespace Coercion

theorem toNumber_eq_fallback (value : Value) : toNumber value = UnaryOperator.fallback value := by
  cases value <;> rfl

theorem toNumber_eq_getD {value : Value} (other : value.kind ≠ .boolean) :
    toNumber value = value.numericLike?.getD (.integer 0) := by
  cases value with
  | boolean b => exact absurd rfl other
  | _ => rfl

theorem numericLike?_toNumber (value : Value) :
    (toNumber value).numericLike? = some (toNumber value) := by
  apply Value.numericLike?_of_isNumber
  cases value with
  | string text =>
    simp only [toNumber]
    cases spelled : Value.ofNumericText? text with
    | none => rfl
    | some number => exact Value.isNumber_of_ofNumericText? spelled
  | _ => rfl

/-- Comparing what operands convert to is comparing the operands, booleans apart. -/
theorem compare?_toNumber {left right : Value} (first : left.kind ≠ .boolean)
    (second : right.kind ≠ .boolean) :
    compare? (toNumber left) (toNumber right) = compare? left right := by
  simp only [compare?, numericLike?_toNumber, Option.getD_some]
  rw [toNumber_eq_getD first, toNumber_eq_getD second]

end Coercion

/-! ### Operators -/

namespace BinaryOperator

/-- An operand of arithmetic that converts to a number and is neither null nor a boolean: a
number or a text. -/
def Spells (operand : Value) : Prop := operand.kind = .number ∨ operand.kind = .string

theorem spells_of_canBeNumber {operand : Value} (convertible : operand.kind.canBeNumber = true)
    (present : operand.kind ≠ .null) (other : operand.kind ≠ .boolean) : Spells operand := by
  cases kind : operand.kind <;> simp_all [Spells, Kind.canBeNumber]

theorem numericLike?_of_spells {operand : Value} (spells : Spells operand)
    (numeric : isWording operand = false) :
    operand.numericLike? = some (Coercion.toNumber operand) := by
  cases operand with
  | integer n => rfl
  | float x => rfl
  | string text =>
    simp only [isWording, Option.isNone_eq_false_iff, Option.isSome_iff_exists] at numeric
    obtain ⟨number, spelled⟩ := numeric
    simp only [Value.numericLike?, Coercion.toNumber, spelled, Option.getD_some]
  | _ => simp [Spells, Value.kind] at spells

variable {op : BinaryOperator} {left right : Value} {mode : Mode}

theorem compute_of_numbers (op : BinaryOperator) {a b : Value}
    (first : left.numericLike? = some a) (second : right.numericLike? = some b) :
    Coercion.compute op left right = .ok (Value.arithmetic op a b) := by
  simp only [Coercion.compute, first, second]

theorem permissive_of_numbers (arithmetic : op.isArithmetic = true) {a b : Value}
    (first : left.numericLike? = some a) (second : right.numericLike? = some b) :
    op.permissive .standard left right = .ok (Value.arithmetic op a b) := by
  cases op with
  | add => simp only [permissive, Rules.standard, Coercion.add, first, second]
  | subtract | multiply | divide | remainder =>
    simp only [permissive, Rules.standard, compute_of_numbers _ first second]
    rfl
  | _ => cases arithmetic

/-- An arithmetic plan wants numbers, except that a sum with a text is left to the rules. -/
theorem operands_of_ofBinary? (arithmetic : op.isArithmetic = true) {first second : Kind}
    {plan : Plan} (found : Plan.ofBinary? op first second mode = some plan) :
    plan.result = .number ∧ first.canBeNumber = true ∧ second.canBeNumber = true ∨
      plan.result ≠ .number ∧ op = .add := by
  simp only [Plan.ofBinary?, arithmetic, if_true] at found
  split at found
  next numbers =>
    cases found
    exact .inl ⟨rfl, by rw [numbers.1]; rfl, by rw [numbers.2]; rfl⟩
  next =>
    split at found
    next sum =>
      cases found
      exact .inr ⟨nofun, sum.1⟩
    next =>
      split at found
      next convertible =>
        simp only [Plan.convertible, Bool.and_eq_true] at convertible
        cases found
        exact .inl ⟨rfl, convertible.1.2, convertible.2⟩
      next => cases found

theorem planned_of_numbers (arithmetic : op.isArithmetic = true) (first : Spells left)
    (second : Spells right) :
    op.planned .standard .number left right = op.permissive .standard left right := by
  simp only [planned, arithmetic, if_true, ne_eq, not_true_eq_false, if_false]
  split
  next => rfl
  next numeric =>
    simp only [Bool.or_eq_true, not_or, Bool.not_eq_true] at numeric
    rw [permissive_of_numbers arithmetic (numericLike?_of_spells first numeric.1)
      (numericLike?_of_spells second numeric.2)]
    rfl

theorem apply_standard (rules : Rules) (mode : Mode) (op : BinaryOperator) (left right : Value) :
    op.apply .standard rules mode left right =
      match Plan.ofBinary? op left.kind right.kind mode with
      | some plan => op.planned rules plan.result left right
      | none => op.permissive rules left right := by
  simp only [apply, Resolver.standard, Plan.resolve]
  cases Plan.ofBinary? op left.kind right.kind mode <;> rfl

theorem apply_of_arithmetic (arithmetic : op.isArithmetic = true)
    (operands : ∀ operand ∈ [left, right], operand.kind ≠ .null ∧ operand.kind ≠ .boolean) :
    op.apply .standard .standard mode left right = op.permissive .standard left right := by
  have first := operands left List.mem_cons_self
  have second := operands right (List.mem_cons_of_mem _ List.mem_cons_self)
  rw [apply_standard]
  split
  next plan found =>
    rcases operands_of_ofBinary? arithmetic found with ⟨number, left, right⟩ | ⟨text, rfl⟩
    · rw [number]
      exact planned_of_numbers arithmetic (spells_of_canBeNumber left first.1 first.2)
        (spells_of_canBeNumber right second.1 second.2)
    · simp only [planned, arithmetic, if_true, text, ne_eq, not_false_eq_true]
      rfl
  next => rfl

theorem permissive_of_relational (relational : op.isRelational = true) :
    op.permissive .standard left right =
      .ok (.boolean (op.holds (Coercion.compare? left right))) := by
  cases op with
  | less | greater | lessEqual | greaterEqual => rfl
  | _ => cases relational

theorem planned_of_relational (relational : op.isRelational = true) (result : Kind) :
    op.planned .standard result left right =
      .ok (.boolean (op.holds
        (Coercion.compare? (Coercion.toNumber left) (Coercion.toNumber right)))) := by
  cases op with
  | less | greater | lessEqual | greaterEqual => rfl
  | _ => cases relational

theorem apply_of_relational (relational : op.isRelational = true)
    (operands : ∀ operand ∈ [left, right], operand.kind ≠ .boolean) :
    op.apply .standard .standard mode left right = op.permissive .standard left right := by
  have first := operands left List.mem_cons_self
  have second := operands right (List.mem_cons_of_mem _ List.mem_cons_self)
  rw [apply_standard]
  split
  next plan found =>
    rw [planned_of_relational relational, permissive_of_relational relational,
      Coercion.compare?_toNumber first second]
  next => rfl

end BinaryOperator

namespace UnaryOperator

variable {op : UnaryOperator} {operand : Value}

/-- A sign needs no plan: both modes take an operand for the same number. -/
theorem apply_of_sign (sign : op ≠ .complement) (mode : Mode) :
    op.apply .standard .standard mode operand =
      if op = .not then .ok (.boolean !operand.truthy)
      else if operand.isNull then .ok .null
      else .checked (op.onNumber operand (fallback operand)) := by
  simp only [apply, Rules.standard, Coercion.toNumber_eq_fallback, sign, if_false]
  split
  · rfl
  · split
    · rfl
    · split <;> rfl

theorem ofUnary?_complement {kind : Kind} (other : kind ≠ .string ∧ kind ≠ .boolean) :
    Plan.ofUnary? .complement kind .loose = Plan.ofUnary? .complement kind .strict := by
  cases kind with
  | string => exact absurd rfl other.1
  | boolean => exact absurd rfl other.2
  | _ => rfl

theorem apply_of_complement (other : operand.kind ≠ .string ∧ operand.kind ≠ .boolean) :
    apply .standard .standard .loose .complement operand =
      apply .standard .standard .strict .complement operand := by
  simp only [apply, Resolver.standard, Plan.resolve, ofUnary?_complement other]

end UnaryOperator

namespace Application

/-- Arithmetic without null and booleans, relations without booleans, and complements of neither
texts nor booleans. -/
def Neutral : Application → Prop
  | unary op operand =>
    op = .complement → operand.kind ≠ .string ∧ operand.kind ≠ .boolean
  | binary op left right =>
    (op.isArithmetic = true →
      ∀ operand ∈ [left, right], operand.kind ≠ .null ∧ operand.kind ≠ .boolean) ∧
    (op.isRelational = true → ∀ operand ∈ [left, right], operand.kind ≠ .boolean)

instance : DecidablePred Neutral
  | unary op _ => inferInstanceAs (Decidable (op = .complement → _ ∧ _))
  | binary _ left right => inferInstanceAs (Decidable ((_ → ∀ operand ∈ [left, right], _ ∧ _) ∧
      (_ → ∀ operand ∈ [left, right], _)))

theorem Neutral.result_binary {op : BinaryOperator} {left right : Value}
    (neutral : (binary op left right).Neutral) (mode : Mode) :
    op.apply .standard .standard mode left right = op.permissive .standard left right := by
  cases arithmetic : op.isArithmetic with
  | true => exact BinaryOperator.apply_of_arithmetic arithmetic (neutral.1 arithmetic)
  | false =>
    cases relational : op.isRelational with
    | true => exact BinaryOperator.apply_of_relational relational (neutral.2 relational)
    | false => exact BinaryOperator.apply_of_others arithmetic relational

theorem Neutral.result_eq {application : Application} (neutral : application.Neutral)
    (values : NameMap Value) :
    application.result .standard ⟨values, .loose, .standard⟩ =
      application.result .standard ⟨values, .strict, .standard⟩ := by
  cases application with
  | unary op operand =>
    by_cases complement : op = .complement
    · subst complement
      exact UnaryOperator.apply_of_complement (neutral rfl)
    · simp only [result, UnaryOperator.apply_of_sign complement]
  | binary op left right => simp only [result, neutral.result_binary]

/-- The modes differ on a sum with null. -/
example (values : NameMap Value) :
    (binary .add .null (.integer 1)).result .standard ⟨values, .loose, .standard⟩ =
        .ok (.integer 1) ∧
      (binary .add .null (.integer 1)).result .standard ⟨values, .strict, .standard⟩ =
        .ok (.string "null1") :=
  ⟨rfl, rfl⟩

end Application

namespace Context

variable {settle : Evaluation → Evaluation} {bindings : NameMap Value} {e : Expr}

theorem evaluateWith_loose
    (keeps : ∀ evaluation, (settle evaluation).reads = evaluation.reads)
    (neutral : ∀ application ∈ e.applications settle .standard
      (ofBindings .strict bindings).scope, application.Neutral) :
    e.evaluateWith settle .standard (ofBindings .loose bindings).scope =
      e.evaluateWith settle .standard (ofBindings .strict bindings).scope := by
  apply Expr.evaluateWith_of_results keeps e
  · intro name _
    rfl
  · intro application member
    exact (neutral application member).result_eq bindings

/-- Under the standard rules both modes come to the same and read the same, if strict evaluation
makes neutral applications only. -/
theorem modes_agree (bindings : NameMap Value) (e : Expr) :
    let strict := ofBindings .strict bindings
    let loose := ofBindings .loose bindings
    ((∀ application ∈ e.applications .contain .standard strict.scope, application.Neutral) →
      (loose.evaluate .standard e).1 = (strict.evaluate .standard e).1 ∧
      (loose.evaluate .standard e).2.reads = (strict.evaluate .standard e).2.reads) ∧
    ((∀ application ∈ e.applications id .standard strict.scope, application.Neutral) →
      (loose.tryEvaluate .standard e).1 = (strict.tryEvaluate .standard e).1 ∧
      (loose.tryEvaluate .standard e).2.reads = (strict.tryEvaluate .standard e).2.reads) := by
  intro strict loose
  constructor
  · intro neutral
    have equal : e.contained .standard loose.scope = e.contained .standard strict.scope :=
      evaluateWith_loose Evaluation.reads_contain neutral
    constructor
    · simp only [evaluate, equal]
    · simp only [evaluate, equal]
      rfl
  · intro neutral
    have equal : e.strictly .standard loose.scope = e.strictly .standard strict.scope :=
      evaluateWith_loose (fun _ => rfl) neutral
    constructor
    · simp only [tryEvaluate, equal]
    · simp only [tryEvaluate, equal]
      rfl

/-- A text that spells a number, a comparison with null, and a list in a difference. -/
theorem modes_agree_of_texts :
    let bindings := NameMap.ofList [("a", .string "21"), ("b", .list [.null])]
    let e := Expr.binary .and
      (.binary .greater (.binary .multiply (.named "a") (.constant (.integer 2))) (.named "c"))
      (.binary .subtract (.named "b") (.named "a"))
    let strict := ofBindings .strict bindings
    let loose := ofBindings .loose bindings
    (∀ application ∈ e.applications .contain .standard strict.scope, application.Neutral) ∧
      (∀ application ∈ e.applications id .standard strict.scope, application.Neutral) ∧
      (loose.evaluate .standard e).1 = .ok (.boolean false) ∧
      (loose.evaluate .standard e).2.reads.names = ["a", "b", "c"] ∧
      (loose.tryEvaluate .standard e).1 =
        .error (.error (.coercion (.mismatch "-" .other .string))) ∧
      (loose.tryEvaluate .standard e).2.reads = (strict.tryEvaluate .standard e).2.reads := by
  intro bindings e strict loose
  have contained : e.applications .contain .standard strict.scope =
      [.binary .multiply (.string "21") (.integer 2), .binary .greater (.integer 42) .null,
        .binary .subtract (.list [.null]) (.string "21"),
        .binary .and (.boolean true) (.boolean false)] := rfl
  have strictly : e.applications id .standard strict.scope =
      [.binary .multiply (.string "21") (.integer 2), .binary .greater (.integer 42) .null,
        .binary .subtract (.list [.null]) (.string "21")] := rfl
  have first : ∀ application ∈ e.applications .contain .standard strict.scope,
      application.Neutral := by
    rw [contained]
    decide
  have second : ∀ application ∈ e.applications id .standard strict.scope,
      application.Neutral := by
    rw [strictly]
    decide
  obtain ⟨evaluations, attempts⟩ := modes_agree bindings e
  obtain ⟨outcome, reads⟩ := evaluations first
  obtain ⟨attempted, names⟩ := attempts second
  exact ⟨first, second, outcome.trans rfl, (congrArg NameMap.names reads).trans rfl,
    attempted.trans rfl, names⟩

end Context
end Tripwire
