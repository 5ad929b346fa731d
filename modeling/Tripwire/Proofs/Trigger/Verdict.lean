import Tripwire.Dispatcher
import Tripwire.Proofs.Engine.Deployment

/-!
Verdicts: what conditions come to in an environment, without caches and logs.

A check in a deployment gives the verdict and leads to a deployment that follows
by look-ups (`check_deployed`).  A verdict depends on trees, resolvers and the
variables, mode and rules alone (`verdict_congr`).
-/

namespace Tripwire

universe u

namespace Context

theorem scope_of_snapshot {context after : Context} (same : after.snapshot = context.snapshot) :
    after.scope = context.scope :=
  calc after.scope
    _ = after.snapshot.toContext.scope := rfl
    _ = context.snapshot.toContext.scope := by rw [same]
    _ = context.scope := rfl

end Context

namespace Condition

/-- The truth of a condition by an evaluation without the cache. -/
def verdict (engines : Engines) (context : Context) (condition : Condition) :
    Except Crash Bool :=
  let engine := engines.get condition.engine
  match (context.evaluate engine.resolver condition.compiled.root).1 with
  | .ok value => truthOf engine context value
  | .error _ => .ok false

/-- Two conditions ask the same, each of its own engine. -/
def Agrees (engines others : Engines) (condition other : Condition) : Prop :=
  condition.compiled.root = other.compiled.root ∧
    (engines.get condition.engine).resolver = (others.get other.engine).resolver

variable {engines others : Engines} {context after : Context} {condition other : Condition}

theorem truthOf_congr {engine stepped : Engine} (resolver : stepped.resolver = engine.resolver)
    (scope : after.scope = context.scope) (value : Value) :
    truthOf stepped after value = truthOf engine context value := by
  have mode : after.mode = context.mode := congrArg Scope.mode scope
  have rules : after.rules = context.rules := congrArg Scope.rules scope
  simp only [truthOf, resolver, mode, rules]

theorem verdict_congr (agrees : Agrees engines others condition other)
    (scope : after.scope = context.scope) :
    other.verdict others after = condition.verdict engines context := by
  have evaluated : ∀ resolver e,
      (after.evaluate resolver e).1 = (context.evaluate resolver e).1 := by
    intro resolver e
    apply Frozen.evaluate_congr
    rw [scope]
  simp only [verdict, ← agrees.1, ← agrees.2, evaluated,
    truthOf_congr agrees.2.symm scope]

theorem map_verdict_congr {conditions asked : List Condition}
    (agree : List.Forall₂ (Agrees engines others) conditions asked)
    (scope : after.scope = context.scope) :
    asked.map (·.verdict others after) = conditions.map (·.verdict engines context) := by
  induction agree with
  | nil => rfl
  | cons first _ ih => rw [List.map_cons, List.map_cons, ih, verdict_congr first scope]

end Condition

namespace Composite

/-- The truth of the whole from the truths of the conditions. -/
def join (decisive : Bool) : List (Except Crash Bool) → Except Crash Bool
  | [] => .ok !decisive
  | .ok truth :: rest => if truth = decisive then .ok decisive else join decisive rest
  | .error crash :: _ => .error crash

def verdict (engines : Engines) (context : Context) (composite : Composite) :
    Except Crash Bool :=
  if composite.conditions.isEmpty then .ok false
  else join composite.combinator.decisive (composite.conditions.map (·.verdict engines context))

end Composite

namespace Check

variable {ν : Type u}

/-- Only conditions over known expressions are looked at. -/
def Watches (expressions : List Compiled) : Check ν → Prop
  | condition c => c.compiled ∈ expressions
  | composite c => ∀ condition ∈ c.conditions, condition.compiled ∈ expressions
  | custom _ => False

/-- The verdict of conditions; a check from outside the library has none. -/
def verdict (engines : Engines) (context : Context) : Check ν → Except Crash Bool
  | condition c => c.verdict engines context
  | composite c => c.verdict engines context
  | custom _ => .ok false

/-- Two checks ask the same questions in the same order. -/
def Agrees (engines others : Engines) : Check ν → Check ν → Prop
  | condition c, condition d => c.Agrees engines others d
  | composite c, composite d =>
    c.combinator = d.combinator ∧
      List.Forall₂ (Condition.Agrees engines others) c.conditions d.conditions
  | _, _ => False

variable {engines others : Engines} {context after : Context} {check other : Check ν}

theorem verdict_congr (agrees : check.Agrees engines others other)
    (scope : after.scope = context.scope) :
    other.verdict others after = check.verdict engines context := by
  cases check with
  | condition c =>
    cases other with
    | condition d => exact Condition.verdict_congr agrees scope
    | composite | custom => exact agrees.elim
  | composite c =>
    cases other with
    | composite d =>
      obtain ⟨combinator, pairwise⟩ := agrees
      have verdicts := Condition.map_verdict_congr pairwise scope
      have empty : d.conditions.isEmpty = c.conditions.isEmpty := by
        rw [← List.isEmpty_map, verdicts, List.isEmpty_map]
      simp only [verdict, Composite.verdict, combinator, empty, verdicts]
    | condition | custom => exact agrees.elim
  | custom _ => exact agrees.elim

/-- Engines that decide alike give every check the same verdict. -/
theorem verdict_of_resolvers
    (resolver : ∀ place, (others.get place).resolver = (engines.get place).resolver)
    (scope : after.scope = context.scope) (check : Check ν) :
    check.verdict others after = check.verdict engines context := by
  have agrees : ∀ condition : Condition, condition.Agrees engines others condition :=
    fun condition => ⟨rfl, (resolver condition.engine).symm⟩
  cases check with
  | condition c => exact Condition.verdict_congr (agrees c) scope
  | composite c =>
    have same : (composite c : Check ν).Agrees engines others (composite c) :=
      ⟨rfl, List.forall₂_same.mpr fun condition _ => agrees condition⟩
    exact verdict_congr same scope
  | custom _ => rfl

end Check

/-! ### Checks in a deployment -/

/-- A consistent deployment with a context at a seat. -/
structure Deployment.Seats (d : Deployment) (seat : Nat) (context : Context) : Prop where
  consistent : d.Consistent
  seated : d.contexts[seat]? = some context

variable {d : Deployment} {seat : Nat} {context : Context}

namespace Condition

/-- The truth of a condition is its verdict, whatever the cache of its engine holds. -/
theorem holds_deployed (seats : d.Seats seat context) (condition : Condition)
    (known : condition.compiled ∈ d.expressions) (label : String) :
    ∃ d' after, d.Follows seat d' ∧ d'.Seats seat after ∧
      condition.holds d.engines context label =
        (condition.verdict d.engines context, d'.engines, after) := by
  obtain ⟨meaning, sound⟩ := seats.consistent
  obtain ⟨expression, found⟩ := List.mem_iff_getElem?.mp known
  have member := List.mem_of_getElem? seats.seated
  have value := (sound condition.engine).value_evaluateCached known member label
  have follows := d.follows_lookUp condition.engine expression seat label
  obtain ⟨engines, contexts⟩ := d.lookUp_eq condition.engine found seats.seated label
  have resolver := (d.engines.get condition.engine).resolver_evaluateCached condition.compiled
    context label
  have snapshot := (d.engines.get condition.engine).snapshot_evaluateCached condition.compiled
    context label
  simp only [Deployment.session] at value
  rcases answered : (d.engines.get condition.engine).evaluateCached condition.compiled context label
    with ⟨outcome, engine, after⟩
  rw [answered] at value engines contexts resolver snapshot
  refine ⟨_, after, follows, ⟨follows.consistent seats.consistent, ?seated⟩, ?result⟩
  case seated =>
    rw [contexts, List.getElem?_set_self]
    exact (List.getElem?_eq_some_iff.mp seats.seated).1
  case result =>
    rw [engines]
    cases outcome with
    | ok lookup =>
      have truth : truthOf engine after lookup.frozen.value =
          truthOf (d.engines.get condition.engine) context lookup.frozen.value :=
        truthOf_congr resolver (Context.scope_of_snapshot snapshot) _
      simp only [holds, tryEvaluate, answered, truth, verdict, ← value, Except.map]
      cases truthOf (d.engines.get condition.engine) context lookup.frozen.value <;> rfl
    | error crash => simp only [holds, tryEvaluate, answered, verdict, ← value, Except.map]

end Condition

namespace Deployment.Follows

variable {d' : Deployment} {after : Context}

theorem scope (follows : d.Follows seat d') (before : d.contexts[seat]? = some context)
    (behind : d'.contexts[seat]? = some after) : after.scope = context.scope := by
  have same := follows.snapshot
  rw [before, behind, Option.map_some, Option.map_some, Option.some.injEq] at same
  exact Context.scope_of_snapshot same

end Deployment.Follows

/-- Conditions that are looked at one after another come to what their verdicts come to. -/
theorem Composite.search_deployed (decisive : Bool) (label : String) (conditions : List Condition)
    (seats : d.Seats seat context)
    (known : ∀ condition ∈ conditions, condition.compiled ∈ d.expressions) :
    ∃ d' after, d.Follows seat d' ∧ d'.Seats seat after ∧
      search decisive label conditions d.engines context =
        (join decisive (conditions.map (·.verdict d.engines context)), d'.engines, after) := by
  induction conditions generalizing d context with
  | nil => exact ⟨d, context, .refl seat d, seats, rfl⟩
  | cons first rest ih =>
    obtain ⟨d', middle, follows, seated, held⟩ :=
      first.holds_deployed seats (known first List.mem_cons_self) label
    simp only [search, held, List.map_cons]
    cases first.verdict d.engines context with
    | error crash => exact ⟨d', middle, follows, seated, rfl⟩
    | ok truth =>
      by_cases decided : truth = decisive
      · simp only [join, decided, if_true]
        exact ⟨d', middle, follows, seated, rfl⟩
      · have later : ∀ condition ∈ rest, condition.compiled ∈ d'.expressions := by
          intro condition member
          rw [follows.expressions]
          exact known condition (List.mem_cons_of_mem _ member)
        obtain ⟨d'', after, further, reached, searched⟩ := ih seated later
        have agree : List.Forall₂ (Condition.Agrees d.engines d'.engines) rest rest :=
          List.forall₂_same.mpr fun condition _ =>
            ⟨rfl, (follows.resolver condition.engine).symm⟩
        have verdicts := Condition.map_verdict_congr agree
          (follows.scope seats.seated seated.seated)
        simp only [join, decided, if_false, searched, verdicts]
        exact ⟨d'', after, follows.trans further, reached, rfl⟩

theorem Composite.holds_deployed (seats : d.Seats seat context) (composite : Composite)
    (known : ∀ condition ∈ composite.conditions, condition.compiled ∈ d.expressions)
    (label : String) :
    ∃ d' after, d.Follows seat d' ∧ d'.Seats seat after ∧
      composite.holds d.engines context label =
        (composite.verdict d.engines context, d'.engines, after) := by
  simp only [holds, verdict]
  split
  · exact ⟨d, context, .refl seat d, seats, rfl⟩
  · exact search_deployed _ label composite.conditions seats known

/-- A check comes to the verdict, and only looks things up. -/
theorem Trigger.check_deployed {ν : Type u} (seats : d.Seats seat context) (trigger : Trigger ν)
    (watches : trigger.source.Watches d.expressions) :
    ∃ d' after, d.Follows seat d' ∧ d'.Seats seat after ∧
      trigger.check d.engines context =
        (.guarded (trigger.source.verdict d.engines context), d'.engines, after) := by
  obtain ⟨name, source, action⟩ := trigger
  cases source with
  | condition c =>
    obtain ⟨d', after, follows, seated, held⟩ := c.holds_deployed seats watches name
    refine ⟨d', after, follows, seated, ?_⟩
    simp only [check, held, Check.verdict]
  | composite c =>
    obtain ⟨d', after, follows, seated, held⟩ := c.holds_deployed seats watches name
    refine ⟨d', after, follows, seated, ?_⟩
    simp only [check, held, Check.verdict]
  | custom _ => exact watches.elim

end Tripwire
