import Tripwire.Proofs.Trigger.Verdict

/-!
Which crashes get out of a condition.

A crash of the evaluation is reported as a failure, and a failure reads as false.
The truth of the result, however, is told outside of this containment, in loose
mode by the rules (`tryEvaluate_crash_iff`).  Where telling it cannot crash,
conditions and composites decide by the truths that are left (`search_eq`).
-/

namespace Tripwire

variable {engines : Engines} {context : Context} {condition : Condition} {label : String}
  {crash : Crash} {error : EvalError}

/-- In the context the truth of every result can be told. -/
def Context.Decides (context : Context) : Prop :=
  context.mode = .strict ∨ ∀ value, ∃ truth, context.rules.toBoolean value = .ok truth

theorem Context.Decides.congr {after : Context} (decides : context.Decides)
    (same : after.snapshot = context.snapshot) : after.Decides := by
  have mode : after.mode = context.mode := congrArg Snapshot.mode same
  have rules : after.rules = context.rules := congrArg Snapshot.rules same
  rw [Context.Decides, mode, rules]
  exact decides

namespace Condition

/-- The result that is looked up for a condition, unless its evaluation crashes. -/
def found (condition : Condition) (engines : Engines) (context : Context) (label : String) :
    Except Crash Lookup :=
  ((engines.get condition.engine).evaluateCached condition.compiled context label).1

/-- A crash gets out: in loose mode the rules crash on the result. -/
def Escapes (condition : Condition) (engines : Engines) (context : Context) (label : String)
    (crash : Crash) : Prop :=
  ∃ lookup, condition.found engines context label = .ok lookup ∧ context.mode = .loose ∧
    context.rules.toBoolean lookup.frozen.value = .error crash

/-- How the outcome of a condition is read; what failed is false. -/
def read : Attempt EvalError Bool → Bool
  | .ok truth => truth
  | .error _ => false

theorem tryEvaluate_outcome (condition : Condition) (engines : Engines) (context : Context)
    (label : String) :
    (condition.tryEvaluate engines context label).1 =
      match condition.found engines context label with
      | .ok lookup =>
        .guarded (truthOf (engines.get condition.engine) context lookup.frozen.value)
      | .error crash => .error (.error (.failed crash.message)) := by
  have resolver := (engines.get condition.engine).resolver_evaluateCached condition.compiled
    context label
  have snapshot := (engines.get condition.engine).snapshot_evaluateCached condition.compiled
    context label
  rcases answered : (engines.get condition.engine).evaluateCached condition.compiled context label
    with ⟨outcome, engine, after⟩
  rw [answered] at resolver snapshot
  simp only [tryEvaluate, found, answered]
  cases outcome with
  | error crash => rfl
  | ok lookup =>
    exact congrArg Attempt.guarded
      (truthOf_congr resolver (Context.scope_of_snapshot snapshot) lookup.frozen.value)

theorem snapshot_tryEvaluate (condition : Condition) (engines : Engines) (context : Context)
    (label : String) :
    (condition.tryEvaluate engines context label).2.2.snapshot = context.snapshot := by
  have snapshot := (engines.get condition.engine).snapshot_evaluateCached condition.compiled
    context label
  rcases answered : (engines.get condition.engine).evaluateCached condition.compiled context label
    with ⟨outcome, engine, after⟩
  rw [answered] at snapshot
  simp only [tryEvaluate, answered]
  cases outcome <;> exact snapshot

/-- Only telling the truth of a result in loose mode lets a crash out. -/
theorem tryEvaluate_crash_iff :
    (condition.tryEvaluate engines context label).1 = .error (.crash crash) ↔
      condition.Escapes engines context label crash := by
  rw [tryEvaluate_outcome, Escapes]
  cases condition.found engines context label with
  | error cause => simp
  | ok lookup =>
    simp only [Except.ok.injEq, exists_eq_left', truthOf]
    cases context.mode with
    | strict => simp [Attempt.guarded]
    | loose =>
      cases context.rules.toBoolean lookup.frozen.value <;> simp [Attempt.guarded]

/-- The failures of a condition are the crashes of its evaluation. -/
theorem tryEvaluate_error_iff :
    (condition.tryEvaluate engines context label).1 = .error (.error error) ↔
      ∃ crash, condition.found engines context label = .error crash ∧
        error = .failed crash.message := by
  rw [tryEvaluate_outcome]
  cases condition.found engines context label with
  | error cause => simp [eq_comm]
  | ok lookup =>
    simp only [reduceCtorEq, false_and, exists_false, iff_false]
    cases truthOf (engines.get condition.engine) context lookup.frozen.value <;>
      simp [Attempt.guarded]

theorem not_escapes (decides : context.Decides) : ¬condition.Escapes engines context label crash := by
  rintro ⟨lookup, _, loose, crashed⟩
  rcases decides with strict | total
  · rw [strict] at loose
    cases loose
  · obtain ⟨truth, told⟩ := total lookup.frozen.value
    rw [told] at crashed
    cases crashed

theorem holds_eq (decides : context.Decides) (condition : Condition) (engines : Engines)
    (label : String) :
    condition.holds engines context label =
      let tried := condition.tryEvaluate engines context label
      (.ok (read tried.1), tried.2) := by
  have contained : ∀ crash,
      (condition.tryEvaluate engines context label).1 ≠ .error (.crash crash) :=
    fun crash escaped => not_escapes decides (tryEvaluate_crash_iff.mp escaped)
  rw [holds]
  rcases tried : condition.tryEvaluate engines context label with
    ⟨(error | crash) | truth, later, after⟩
  · rfl
  · exact absurd (congrArg Prod.fst tried) (contained crash)
  · rfl

end Condition

namespace Combinator

/-- The truth of the whole by the truths of its parts; without parts it is false. -/
def join : Combinator → List Bool → Bool
  | all, truths => truths ≠ [] ∧ false ∉ truths
  | any, truths => true ∈ truths

theorem join_eq (combinator : Combinator) {truths : List Bool} (some : truths ≠ []) :
    combinator.join truths =
      if combinator.decisive ∈ truths then combinator.decisive else !combinator.decisive := by
  cases combinator with
  | all => by_cases failed : false ∈ truths <;> simp [join, decisive, some, failed]
  | any => by_cases held : true ∈ truths <;> simp [join, decisive, held]

end Combinator

namespace Composite

/-- The truths of conditions that are looked at one after another, failures being false. -/
def truths (label : String) : List Condition → Engines → Context → List Bool
  | [], _, _ => []
  | condition :: rest, engines, context =>
    let (outcome, engines, context) := condition.tryEvaluate engines context label
    Condition.read outcome :: truths label rest engines context

theorem search_eq (decides : context.Decides) (decisive : Bool) (label : String)
    (conditions : List Condition) (engines : Engines) :
    (search decisive label conditions engines context).1 =
      .ok (if decisive ∈ truths label conditions engines context then decisive else !decisive) := by
  induction conditions generalizing engines context with
  | nil => rfl
  | cons condition rest ih =>
    have snapshot := condition.snapshot_tryEvaluate engines context label
    rw [search, truths, condition.holds_eq decides]
    rcases tried : condition.tryEvaluate engines context label with ⟨outcome, later, after⟩
    rw [tried] at snapshot
    have further := ih (decides.congr snapshot) later
    by_cases decided : Condition.read outcome = decisive
    · simp only [decided, if_true, List.mem_cons, true_or]
    · simp only [decided, if_false, further, List.mem_cons, Ne.symm decided, false_or]

/-- A composite decides by the truths of its conditions, failures being false. -/
theorem holds_eq (decides : context.Decides) (composite : Composite) (engines : Engines)
    (label : String) :
    (composite.holds engines context label).1 =
      .ok (composite.combinator.join (truths label composite.conditions engines context)) := by
  rw [holds]
  cases listed : composite.conditions with
  | nil => cases composite.combinator <;> rfl
  | cons condition rest =>
    have filled : truths label (condition :: rest) engines context ≠ [] := List.cons_ne_nil _ _
    rw [List.isEmpty_cons, if_neg Bool.false_ne_true, search_eq decides, Combinator.join_eq _ filled]

end Composite

/-- The only crash that gets out of a condition is that of the loose rules on its result.
Where these rules tell every truth, failures are read as false and the search goes on. -/
theorem failures_contained (engines : Engines) (context : Context) (label : String) :
    (∀ condition crash, (Condition.tryEvaluate condition engines context label).1 =
      .error (.crash crash) ↔ condition.Escapes engines context label crash) ∧
    (∀ condition error, (Condition.tryEvaluate condition engines context label).1 =
      .error (.error error) ↔ ∃ crash, condition.found engines context label = .error crash ∧
        error = .failed crash.message) ∧
    (context.Decides →
      (∀ condition, (Condition.holds condition engines context label).1 =
        .ok (Condition.read (condition.tryEvaluate engines context label).1)) ∧
      ∀ composite, (Composite.holds composite engines context label).1 =
        .ok (composite.combinator.join
          (Composite.truths label composite.conditions engines context))) := by
  refine ⟨fun condition crash => Condition.tryEvaluate_crash_iff,
    fun condition error => Condition.tryEvaluate_error_iff, fun decides => ⟨?_, ?_⟩⟩
  · intro condition
    rw [condition.holds_eq decides]
  · exact fun composite => composite.holds_eq decides engines label

/-- Rules that convert no number: the condition fails, and the search goes on. -/
theorem failures_contained_of_numbers :
    let brittle : Rules :=
      { Rules.standard with toNumber := fun _ => .error ⟨some "to_number exploded"⟩ }
    let failing : Condition :=
      ⟨0, 1, "hp - 1", .binary .subtract (.named "hp") (.constant (.integer 1))⟩
    let plain : Condition := ⟨0, 2, "1", .constant (.integer 1)⟩
    let engines : Engines := ⟨[.new .loose], 3⟩
    let context := (Context.new .loose).withRules brittle 1
    (failing.tryEvaluate engines context "t").1 = .error (.error (.failed "to_number exploded")) ∧
      (Composite.holds ⟨.any, [failing, plain]⟩ engines context "t").1 = .ok true := by
  intro brittle failing plain engines context
  have decides : context.Decides := .inr fun value => ⟨_, rfl⟩
  obtain ⟨_, failures, reads⟩ := failures_contained engines context "t"
  constructor
  · exact (failures failing (.failed "to_number exploded")).mpr ⟨_, rfl, rfl⟩
  · exact (reads decides).2 ⟨.any, [failing, plain]⟩

/-- Rules that tell no truth: the crash gets out of the condition and of the composite. -/
theorem escape_of_truths :
    let brittle : Rules :=
      { Rules.standard with toBoolean := fun _ => .error ⟨some "to_boolean exploded"⟩ }
    let condition : Condition := ⟨0, 1, "1", .constant (.integer 1)⟩
    let engines : Engines := ⟨[.new .loose], 2⟩
    let context := (Context.new .loose).withRules brittle 1
    (condition.tryEvaluate engines context "t").1 =
        .error (.crash ⟨some "to_boolean exploded"⟩) ∧
      (Composite.holds ⟨.any, [condition]⟩ engines context "t").1 =
        .error ⟨some "to_boolean exploded"⟩ := by
  exact ⟨rfl, rfl⟩

end Tripwire
