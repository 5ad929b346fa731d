import Tripwire.Command.Run
import Tripwire.Proofs.Expr.Containment
import Tripwire.Proofs.Trigger.Escape

/-!
Two commands on one query: `eval` stops at the first error, `check` contains it.

Both read the text before anything else.  The condition of `check` is new to an
engine that has no results yet, so what it finds is a containing evaluation of
the tree that was read (`verdict_of_value`).  The rules of a query are the
standard ones, under which such an evaluation always comes to a value; `eval`
comes to the same value, or to an error.
-/

namespace Tripwire

namespace Engine

variable {engine : Engine} {compiled : Compiled} {context : Context} {value : Value}

/-- What is not in the cache is evaluated. -/
theorem evaluateCached_of_absent (absent : engine.stored? compiled context = none)
    (evaluated : (context.evaluate engine.resolver compiled.root).1 = .ok value)
    (label : String) :
    ∃ after, (engine.evaluateCached compiled context label).1 =
      .ok ⟨.capture value after, false⟩ := by
  rcases engine.evaluateCached_outcomes compiled context label with
    ⟨frozen, stored, _, _⟩ | ⟨_, ⟨other, after, found, _, new⟩ | ⟨crash, _, crashed, _, _⟩⟩
  · rw [absent] at stored
    cases stored
  · rw [evaluated] at found
    cases found
    rw [new]
    exact ⟨after, rfl⟩
  · rw [evaluated] at crashed
    cases crashed

end Engine

namespace Query

variable (query : Query) (config : Config) {e : Expr}

/-- The truth of a value as a condition, in the mode of a query. -/
def accepts (value : Value) : Bool :=
  match query.mode with
  | .strict => Resolver.standard.isTruthy value
  | .loose => Coercion.toBoolean value

/-- The condition that is checked for a query, and the engines that it is asked on. -/
def condition : Condition × Engines :=
  let (place, engines) := Engines.empty.add (.ofConfig config)
  Condition.ofSource engines place query.expression

/-- The engine of that condition. -/
def asked : Engine := (query.condition config).2.get (query.condition config).1.engine

theorem resolver_asked : (query.asked config).resolver = Resolver.standard := rfl

theorem absent_asked (context : Context) :
    (query.asked config).stored? (query.condition config).1.compiled context = none := rfl

theorem root_condition (parsed : Expr.parse query.expression = .ok e) :
    (query.condition config).1.compiled.root = e := by
  show Compiled.rootOf query.expression = e
  rw [Compiled.rootOf, parsed]

theorem truthOf_asked (value : Value) :
    Condition.truthOf (query.asked config) query.context value = .ok (query.accepts value) := by
  obtain ⟨expression, bindings, mode⟩ := query
  cases mode <;> rfl

/-! ## What the text is read as -/

theorem parse_of_ok (parsed : Expr.parse query.expression = .ok e) : query.parse = .ok e := by
  rw [parse, parsed]
  rfl

theorem parse_of_error {error : ParseError}
    (malformed : Expr.parse query.expression = .error error) :
    query.parse = .error (.error (.parse error)) := by
  rw [parse, malformed]
  rfl

theorem value_of_error {error : ParseError}
    (malformed : Expr.parse query.expression = .error error) :
    query.value config = .error (.error (.parse error)) := by
  rw [value, query.parse_of_error malformed]
  rfl

theorem verdict_of_error {error : ParseError}
    (malformed : Expr.parse query.expression = .error error) :
    query.verdict config = .error (.error (.parse error)) := by
  rw [verdict, query.parse_of_error malformed]
  rfl

/-! ## What the tree is evaluated to -/

theorem value_of_ok (parsed : Expr.parse query.expression = .ok e) :
    query.value config =
      (Attempt.mapError Error.eval (query.context.tryEvaluate Resolver.standard e).1).map
        fun value => (value, (query.context.tryEvaluate Resolver.standard e).2) := by
  rw [value, query.parse_of_ok parsed]
  rfl

/-- The verdict is the truth of what a containing evaluation comes to. -/
theorem verdict_of_value {value : Value} (parsed : Expr.parse query.expression = .ok e)
    (contained : (query.context.evaluate Resolver.standard e).1 = .ok value) :
    query.verdict config = .ok (query.accepts value) := by
  rw [← query.root_condition config parsed, ← query.resolver_asked config] at contained
  obtain ⟨after, answered⟩ :=
    Engine.evaluateCached_of_absent (query.absent_asked config query.context) contained "cli"
  have outcome := (query.condition config).1.tryEvaluate_outcome (query.condition config).2
    query.context "cli"
  have found : (query.condition config).1.found (query.condition config).2 query.context "cli" =
      .ok ⟨.capture value after, false⟩ := answered
  have truth : Condition.truthOf ((query.condition config).2.get (query.condition config).1.engine)
      query.context value = .ok (query.accepts value) := query.truthOf_asked config value
  rw [found] at outcome
  simp only [Frozen.capture, truth] at outcome
  show query.parse.bind (fun _ => Attempt.mapError Error.eval
    ((query.condition config).1.tryEvaluate (query.condition config).2 query.context "cli").1) = _
  rw [query.parse_of_ok parsed, outcome]
  rfl

/-- On a text that is an expression, `check` has a verdict; `eval` finds a value of that truth, or
it reports an error of the evaluation. -/
theorem verdict_agrees (parsed : Expr.parse query.expression = .ok e) :
    (∃ value after, query.value config = .ok (value, after) ∧
        query.verdict config = .ok (query.accepts value)) ∨
      ∃ error truth, query.value config = .error (.error (.eval error)) ∧
        query.verdict config = .ok truth := by
  have calm : query.context.scope.rules.Calm := Rules.calm_standard
  obtain ⟨value, contained⟩ := e.exists_value_of_contained calm
  have evaluated := congrArg Prod.fst (Context.evaluate_of_value contained)
  have verdict := query.verdict_of_value config parsed evaluated
  have continues : Evaluation.Continues (e.strictly Resolver.standard query.context.scope)
      (e.contained Resolver.standard query.context.scope) := e.contained_continues
  rw [query.value_of_ok config parsed]
  cases continues with
  | same equal =>
    rw [equal] at contained
    refine .inl ⟨value, (query.context.tryEvaluate Resolver.standard e).2, ?_, verdict⟩
    simp only [Context.tryEvaluate, contained, Attempt.mapError, Except.map]
  | further error failed _ =>
    refine .inr ⟨.coercion error, query.accepts value, ?_, verdict⟩
    simp only [Context.tryEvaluate, failed, Attempt.mapError, Except.map]

end Query

namespace Command

/-- A text that is no expression makes `eval` and `check` fail with the same error.  Any other text
makes `check` succeed, and then `eval` either succeeds with a value whose truth `check` told, or
reports an error of the evaluation. -/
theorem eval_check_agree (query : Query) (config : Config) (nanoseconds : String) :
    let evaluated := (eval query).run config nanoseconds
    let checked := (check query).run config nanoseconds
    (∀ error, Expr.parse query.expression = .error error →
      evaluated = .error (.error (.parse error)) ∧ checked = .error (.error (.parse error)) ∧
        evaluated.exitCode = 1 ∧ checked.exitCode = 1) ∧
    ∀ e, Expr.parse query.expression = .ok e →
      ∃ truth : Bool, checked = .ok [if truth then "true" else "false"] ∧ checked.exitCode = 0 ∧
        ((∃ value after, query.value config = .ok (value, after) ∧
            evaluated = .ok (Query.report value after) ∧ evaluated.exitCode = 0 ∧
            truth = query.accepts value) ∨
          ∃ error, evaluated = .error (.error (.eval error)) ∧ evaluated.exitCode = 1) := by
  intro evaluated checked
  refine ⟨fun error malformed => ?malformed, fun e parsed => ?parsed⟩
  case malformed =>
    have evaluatedEq : evaluated = .error (.error (.parse error)) := by
      simp only [evaluated, run, query.value_of_error config malformed, Except.map]
    have checkedEq : checked = .error (.error (.parse error)) := by
      simp only [checked, run, query.verdict_of_error config malformed, Except.map]
    exact ⟨evaluatedEq, checkedEq, evaluatedEq ▸ rfl, checkedEq ▸ rfl⟩
  case parsed =>
    have printed (truth : Bool) (verdict : query.verdict config = .ok truth) :
        checked = .ok [if truth then "true" else "false"] := by
      simp only [checked, run, verdict, Except.map]
      cases truth <;> rfl
    rcases query.verdict_agrees config parsed with
      ⟨value, after, found, verdict⟩ | ⟨error, truth, failed, verdict⟩
    · have evaluatedEq : evaluated = .ok (Query.report value after) := by
        simp only [evaluated, run, found, Except.map]
      have checkedEq := printed _ verdict
      exact ⟨query.accepts value, checkedEq, checkedEq ▸ rfl,
        .inl ⟨value, after, found, evaluatedEq, evaluatedEq ▸ rfl, rfl⟩⟩
    · have evaluatedEq : evaluated = .error (.error (.eval error)) := by
        simp only [evaluated, run, failed, Except.map]
      have checkedEq := printed truth verdict
      exact ⟨truth, checkedEq, checkedEq ▸ rfl, .inr ⟨error, evaluatedEq, evaluatedEq ▸ rfl⟩⟩

/-- The operand is no number: `eval` says so, and `check` tells that the condition does not hold. -/
theorem eval_check_agree_on_text_operand :
    let query : Query := ⟨"a - 1", [("a", .string "x")], .strict⟩
    let malformed : Query := ⟨"", [], .loose⟩
    (Expr.parse query.expression =
        .ok (.binary .subtract (.named "a") (.constant (.integer 1))) ∧
      (eval query).run .standard "0" =
        .error (.error (.eval (.coercion (.mismatch "-" .string .number)))) ∧
      (check query).run .standard "0" = .ok ["false"] ∧
      ((check query).run .standard "0").exitCode = 0) ∧
    Expr.parse malformed.expression = .error .empty ∧
      (eval malformed).run .standard "0" = (check malformed).run .standard "0" ∧
      ((check malformed).run .standard "0").exitCode = 1 := by
  intro query malformed
  have parsed : Expr.parse query.expression =
      .ok (.binary .subtract (.named "a") (.constant (.integer 1))) := by decide +kernel
  have failed : Expr.parse malformed.expression = .error .empty := by decide +kernel
  obtain ⟨truth, _, code, _⟩ := (eval_check_agree query .standard "0").2 _ parsed
  obtain ⟨evaluated, checked, _, refused⟩ := (eval_check_agree malformed .standard "0").1 _ failed
  exact ⟨⟨parsed, by decide +kernel, by decide +kernel, code⟩, failed,
    evaluated.trans checked.symm, refused⟩

end Command

end Tripwire
