import Tripwire.Proofs.Engine.Logs
import Tripwire.Proofs.Engine.Requests
import Tripwire.Proofs.Expr.Reads
import Tripwire.Trigger.Condition

/-!
Conditions whose evaluation crashes.

A crash reaches the engine after the cache was asked and before anything is
stored or counted, so all that it leaves behind is another order of recency
(`evaluateCached_of_crash`) and, in the log of the context, the names that were
read until then.  Logs decide nothing, hence for every later look-up the failed
one was a mere look at its key (`tryEvaluate_of_crash`).
-/

namespace Tripwire

namespace Engine

/-- An engine that has all of another one, its stored results perhaps touched in another
order. -/
structure Spared (engine later : Engine) : Prop where
  mode : later.mode = engine.mode
  resolver : later.resolver = engine.resolver
  compiled : later.compiled = engine.compiled
  stats : later.stats = engine.stats
  capacity : later.cache.capacity = engine.cache.capacity
  stored : ∀ key, later.cache.peek? key = engine.cache.peek? key
  pairs : ∀ recency, engine.cache.Reflects recency →
    ∃ shuffled, later.cache.Reflects shuffled ∧ shuffled.pairs.Perm recency.pairs

theorem Spared.refl (engine : Engine) : engine.Spared engine :=
  ⟨rfl, rfl, rfl, rfl, rfl, fun _ => rfl, fun recency reflects => ⟨recency, reflects, .refl _⟩⟩

theorem spared_asked (engine : Engine) (compiled : Compiled) (context : Context) :
    engine.Spared (engine.asked compiled context) where
  mode := rfl
  resolver := rfl
  compiled := rfl
  stats := rfl
  capacity := engine.cache.capacity_serve (.get (.ofContext compiled context))
  stored := engine.cache.peek?_get (.ofContext compiled context)
  pairs recency reflects :=
    ⟨_, (reflects.get (.ofContext compiled context)).2, recency.pairs_get_perm _⟩

/-- Where a look-up crashes, the evaluation of the tree does, after it has read what the log
shows, and of the engine nothing changes but what asking its cache changes. -/
theorem evaluateCached_of_crash {engine : Engine} {compiled : Compiled} {context : Context}
    {label : String} {crash : Crash}
    (crashed : (engine.evaluateCached compiled context label).1 = .error crash) :
    let evaluation := compiled.root.contained engine.resolver context.scope
    evaluation.outcome = .error (.crash crash) ∧
      engine.evaluateCached compiled context label =
        (.error crash, engine.asked compiled context,
          context.clearReads.recordAll evaluation.reads) := by
  intro evaluation
  rcases engine.evaluateCached_cases compiled context label with ⟨frozen, _, _, hit⟩ | ⟨_, missed⟩
  · rw [hit] at crashed
    cases crashed
  rcases (engine.asked compiled context).refresh_cases compiled context label with
    ⟨value, after, _, refreshed⟩ | ⟨cause, after, evaluated, refreshed⟩
  · rw [missed, refreshed] at crashed
    cases crashed
  · rw [missed, refreshed] at crashed ⊢
    cases crashed
    have outcome : Context.atRoot evaluation.outcome = .error crash := congrArg Prod.fst evaluated
    have log : context.clearReads.recordAll evaluation.reads = after := congrArg Prod.snd evaluated
    refine ⟨?_, by rw [log]⟩
    revert outcome
    match evaluation.outcome with
    | .ok value => nofun
    | .error (.error failure) => nofun
    | .error (.crash cause) => exact fun same => by cases same; rfl

end Engine

namespace Condition

/-- A crash of an evaluation is reported with its text.  It spares every engine and, but for the
log, the context, and whatever is done and asked later, the answer is that after a plain look at
the key. -/
theorem tryEvaluate_of_crash (d : Deployment) (condition : Condition) (label : String)
    {seat : Nat} {context : Context} (seated : d.contexts[seat]? = some context) {crash : Crash}
    (crashed : ((d.engines.get condition.engine).evaluateCached condition.compiled context
      label).1 = .error crash) :
    let evaluation := condition.compiled.root.contained
      (d.engines.get condition.engine).resolver context.scope
    ∃ engines after,
      condition.tryEvaluate d.engines context label =
        (.error (.error (.failed crash.message)), engines, after) ∧
      (∀ place, (d.engines.get place).Spared (engines.get place)) ∧
      engines.fresh = d.engines.fresh ∧
      after.snapshot = context.snapshot ∧
      evaluation.outcome = .error (.crash crash) ∧
      (∀ name, after.reads.contains name = true ↔ name ∈ evaluation.reads) ∧
      ∀ operations place compiled other label',
        (({ d with engines := engines, contexts := d.contexts.set seat after } : Deployment).run
            operations).answer? place compiled other label' =
          ((d.step (.on condition.engine (.lookUp (.ofContext condition.compiled context)))).run
            operations).answer? place compiled other label' := by
  intro evaluation
  obtain ⟨outcome, looked⟩ := Engine.evaluateCached_of_crash crashed
  let asked := (d.engines.get condition.engine).asked condition.compiled context
  refine ⟨d.engines.set condition.engine asked, context.clearReads.recordAll evaluation.reads,
    ?reported, fun place => ?spared, rfl, rfl, outcome, fun name => ?log,
    fun operations place compiled other label' => ?later⟩
  case reported => simp only [tryEvaluate, looked, asked, evaluation]
  case spared =>
    rcases d.engines.get_set condition.engine place asked with ⟨changed, here⟩ | kept
    · rw [changed, here]
      exact Engine.spared_asked _ _ _
    · rw [kept]
      exact .refl _
  case log => rw [Context.contains_recordAll_of_empty rfl, decide_eq_true_eq]
  case later =>
    apply Deployment.answer?_run_of_unlogged
    have unlogged :
        (d.contexts.set seat (context.clearReads.recordAll evaluation.reads)).map
            Context.clearReads = d.contexts.map Context.clearReads :=
      Context.map_clearReads_set seated rfl
    simp only [Deployment.unlogged, unlogged]
    rfl

/-- The stored result is outdated by a boolean, whose conversion to a number crashes. -/
theorem tryEvaluate_of_crash_on_outdated :
    let brittle : Rules :=
      { Rules.standard with
        toNumber := fun value =>
          if value.kind = .boolean then .error ⟨some "to_number exploded"⟩
          else .ok (Coercion.toNumber value) }
    let condition : Condition :=
      ⟨0, 1, "hp - 1", .binary .subtract (.named "hp") (.constant (.integer 1))⟩
    let d := Deployment.start.run
      [.found .loose 2 .standard, .on 0 (.bring condition.text condition.compiled.root),
        .on 0 (.enter .loose), .on 0 (.adopt 0 brittle), .on 0 (.set 0 "hp" (.integer 5)),
        .on 0 (.evaluateCached 0 0 "t"), .on 0 (.set 0 "hp" (.boolean true))]
    ∃ context frozen engines after, d.contexts[0]? = some context ∧
      (d.engines.get 0).stored? condition.compiled context = some frozen ∧
      condition.tryEvaluate d.engines context "t" =
        (.error (.error (.failed "to_number exploded")), engines, after) ∧
      (∀ name, after.reads.contains name = true ↔ name ∈ ["hp"]) ∧
      ∀ operations place compiled other label,
        (({ d with engines := engines, contexts := d.contexts.set 0 after } : Deployment).run
            operations).answer? place compiled other label =
          ((d.step (.on 0 (.lookUp (.ofContext condition.compiled context)))).run
            operations).answer? place compiled other label := by
  intro brittle condition d
  obtain ⟨context, seated⟩ : ∃ context, d.contexts[0]? = some context := ⟨_, rfl⟩
  have crashed : ((d.engines.get 0).evaluateCached condition.compiled context "t").1 =
      .error ⟨some "to_number exploded"⟩ := by
    cases seated
    rfl
  obtain ⟨frozen, stored⟩ :
      ∃ frozen, (d.engines.get 0).stored? condition.compiled context = some frozen := by
    cases seated
    exact ⟨_, rfl⟩
  obtain ⟨engines, after, reported, -, -, -, -, log, later⟩ :=
    tryEvaluate_of_crash d condition "t" seated crashed
  refine ⟨context, frozen, engines, after, seated, stored, reported, ?_, later⟩
  cases seated
  exact log

end Condition
end Tripwire
