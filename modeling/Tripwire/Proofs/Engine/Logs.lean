import Tripwire.Proofs.Engine.Deployment

/-!
Logs of reads decide nothing.

A look-up through a cache clears the log of its context before it evaluates, so
its answer does not depend on what stood there.  Without their logs deployments
go through all operations as they do with them (`unlogged_run`), and two that
differ in logs alone answer every later look-up alike (`answer?_run_of_unlogged`).
-/

namespace Tripwire

/-- Another log for the context at a seat is no change once the logs are cleared. -/
theorem Context.map_clearReads_set {contexts : List Context} {seat : Nat} {context after : Context}
    (seated : contexts[seat]? = some context) (same : after.clearReads = context.clearReads) :
    (contexts.set seat after).map clearReads = contexts.map clearReads := by
  obtain ⟨inside, rfl⟩ := List.getElem?_eq_some_iff.mp seated
  rw [List.map_set, same, ← List.map_set, List.set_getElem_self]

namespace Engine

variable (engine : Engine) (compiled : Compiled) (context : Context) (label : String)

theorem refresh_unlogged :
    engine.refresh compiled context.clearReads label = engine.refresh compiled context label := rfl

theorem evaluateCached_unlogged :
    (engine.evaluateCached compiled context.clearReads label).1 =
        (engine.evaluateCached compiled context label).1 ∧
      (engine.evaluateCached compiled context.clearReads label).2.1 =
        (engine.evaluateCached compiled context label).2.1 := by
  have key : Key.ofContext compiled context.clearReads = .ofContext compiled context := rfl
  have bindings : context.clearReads.bindings = context.bindings := rfl
  simp only [evaluateCached, key, bindings, refresh_unlogged]
  obtain ⟨found, cache⟩ := engine.cache.get (.ofContext compiled context)
  cases found with
  | none => exact ⟨rfl, rfl⟩
  | some frozen => cases checked : frozen.isOutdated context.bindings <;> simp [checked]

end Engine

namespace Session

/-- The session with the logs of its contexts cleared. -/
def unlogged (s : Session) : Session := { s with contexts := s.contexts.map .clearReads }

theorem unlogged_unlogged (s : Session) : s.unlogged.unlogged = s.unlogged := by
  simp [unlogged, Function.comp_def, Context.clearReads]

theorem unlogged_onContext (s : Session) (place : Nat) {change : Context → Context}
    (same : ∀ context, (change context.clearReads).clearReads = (change context).clearReads) :
    (s.onContext place change).unlogged = (s.unlogged.onContext place change).unlogged := by
  simp only [unlogged, onContext, mk.injEq, true_and, and_true]
  apply List.ext_getElem?
  intro index
  simp only [List.getElem?_map, List.getElem?_modify]
  cases s.contexts[index]? with
  | none => rfl
  | some context =>
    by_cases here : place = index
    · simp [here, same]
    · simp [here, Context.clearReads]

theorem unlogged_evaluateCached (s : Session) (expression place : Nat) (label : String) :
    (s.evaluateCached expression place label).unlogged =
      (s.unlogged.evaluateCached expression place label).unlogged := by
  simp only [evaluateCached, unlogged, List.getElem?_map]
  cases s.expressions[expression]? with
  | none => exact s.unlogged_unlogged.symm
  | some compiled =>
    cases s.contexts[place]? with
    | none => exact s.unlogged_unlogged.symm
    | some context =>
      have engine := (s.engine.evaluateCached_unlogged compiled context label).2
      have logged := s.engine.clearReads_evaluateCached compiled context label
      have cleared := s.engine.clearReads_evaluateCached compiled context.clearReads label
      simp only [Option.map_some, List.map_set, List.map_map, engine, logged, cleared]
      rfl

theorem unlogged_step (s : Session) (operation : Operation) :
    (s.step operation).unlogged = (s.unlogged.step operation).unlogged := by
  cases operation with
  | clone place =>
    simp only [step, unlogged, List.map_append, List.map_map, List.getElem?_map]
    cases s.contexts[place]? <;> rfl
  | freeze place =>
    simp only [step, unlogged, List.map_map, List.getElem?_map, Option.map_map]
    rfl
  | enter _ | thaw _ => simp [step, unlogged, Function.comp_def, Context.clearReads]
  | adopt place rules =>
    let change (context : Context) := context.withRules rules s.freshRules
    have same :
        (s.onContext place change).unlogged = (s.unlogged.onContext place change).unlogged :=
      s.unlogged_onContext place fun _ => rfl
    exact congrArg (fun t => { t with freshRules := s.freshRules + 1 }) same
  | set place _ _ | remove place _ | get place _ | clearReads place | evaluate place _
  | tryEvaluate place _ => exact s.unlogged_onContext place fun _ => rfl
  | evaluateCached expression place label => exact s.unlogged_evaluateCached expression place label
  | _ => simp [step, unlogged, Function.comp_def, Context.clearReads]

end Session

namespace Deployment

/-- The deployment with the logs of its contexts cleared. -/
def unlogged (d : Deployment) : Deployment := { d with contexts := d.contexts.map .clearReads }

theorem unlogged_unlogged (d : Deployment) : d.unlogged.unlogged = d.unlogged := by
  simp [unlogged, Function.comp_def, Context.clearReads]

theorem unlogged_step (d : Deployment) (operation : Operation) :
    (d.step operation).unlogged = (d.unlogged.step operation).unlogged := by
  cases operation with
  | found mode capacity resolver =>
    exact { d with engines := (d.engines.add (.ofParts mode capacity resolver)).2 }
      |>.unlogged_unlogged.symm
  | on place operation =>
    exact congrArg (d.withSession place) ((d.session place).unlogged_step operation)

/-- Clearing the logs before or after a run comes to the same. -/
theorem unlogged_run (d : Deployment) (operations : List Operation) :
    (d.run operations).unlogged = (d.unlogged.run operations).unlogged := by
  induction operations generalizing d with
  | nil => exact d.unlogged_unlogged.symm
  | cons operation rest ih =>
    calc ((d.step operation).run rest).unlogged
      _ = ((d.step operation).unlogged.run rest).unlogged := ih _
      _ = ((d.unlogged.step operation).unlogged.run rest).unlogged := by rw [d.unlogged_step]
      _ = ((d.unlogged.step operation).run rest).unlogged := (ih _).symm

/-- What the engine at a place would answer for the context at a seat, if there is one. -/
def answer? (d : Deployment) (place : Nat) (compiled : Compiled) (seat : Nat) (label : String) :
    Option (Except Crash Lookup) :=
  d.contexts[seat]?.map fun context =>
    ((d.engines.get place).evaluateCached compiled context label).1

theorem answer?_unlogged (d : Deployment) (place : Nat) (compiled : Compiled) (seat : Nat)
    (label : String) :
    d.unlogged.answer? place compiled seat label = d.answer? place compiled seat label := by
  simp only [answer?, unlogged, List.getElem?_map, Option.map_map]
  congr 1
  funext context
  exact ((d.engines.get place).evaluateCached_unlogged compiled context label).1

/-- Deployments that differ in logs alone answer alike, whatever is done with both. -/
theorem answer?_run_of_unlogged {d d' : Deployment} (same : d'.unlogged = d.unlogged)
    (operations : List Operation) (place : Nat) (compiled : Compiled) (seat : Nat)
    (label : String) :
    (d'.run operations).answer? place compiled seat label =
      (d.run operations).answer? place compiled seat label := by
  rw [← answer?_unlogged, unlogged_run, same, ← unlogged_run, answer?_unlogged]

end Deployment
end Tripwire
