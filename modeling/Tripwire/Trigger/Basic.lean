import Tripwire.Trigger.Composite

/-!
Triggers: a check that runs on the live context, and side effects that run on a
snapshot of it.
-/

namespace Tripwire

inductive TriggerError
  | check (message : String)
  | eval (error : EvalError)
  | execution (message : String)
  deriving DecidableEq

namespace TriggerError

def message : TriggerError → String
  | check message => s!"Check failed: {message}"
  | eval error => error.message
  | execution message => s!"Execution failed: {message}"

def kind : TriggerError → ErrorKind
  | check _ => .evaluation
  | eval error => error.kind
  | execution _ => .dispatch

end TriggerError

universe u

/-- What a side effect notes, and how it ends. -/
structure Effect (ν : Type u) where
  notes : List ν
  outcome : Attempt TriggerError Unit

namespace Effect

variable {ν : Type u}

def none : Effect ν := ⟨[], .ok ()⟩

/-- The second effect follows if the first one succeeds. -/
def andThen (first second : Effect ν) : Effect ν :=
  match first.outcome with
  | .ok _ => ⟨first.notes ++ second.notes, second.outcome⟩
  | .error _ => first

end Effect

/-- A check and a side effect from outside the library. -/
structure Behavior (ν : Type u) where
  check : Engines → Context → Attempt TriggerError Bool × Engines × Context
  execute : Snapshot → Effect ν

namespace Behavior

variable {ν : Type u}

/-- The behavior of a condition, which counts under its own text. -/
def ofCondition (condition : Condition) : Behavior ν where
  check engines context :=
    let (outcome, engines, context) := condition.holds engines context condition.text
    (.guarded outcome, engines, context)
  execute _ := .none

/-- The behavior of a composite, which counts under its own text. -/
def ofComposite (composite : Composite) : Behavior ν where
  check engines context :=
    let (outcome, engines, context) := composite.holds engines context composite.text
    (.guarded outcome, engines, context)
  execute _ := .none

end Behavior

inductive Check (ν : Type u)
  | condition (condition : Condition)
  | composite (composite : Composite)
  | custom (behavior : Behavior ν)

/-- The same check as a behavior, so that conditions count under their own text. -/
def Check.toBehavior {ν : Type u} : Check ν → Behavior ν
  | .condition c => .ofCondition c
  | .composite c => .ofComposite c
  | .custom behavior => behavior

structure Trigger (ν : Type u) where
  name : String
  source : Check ν
  action : Option (Snapshot → Effect ν)

namespace Trigger

variable {ν : Type u}

/-- Checks the trigger; conditions count under its name. -/
def check (trigger : Trigger ν) (engines : Engines) (context : Context) :
    Attempt TriggerError Bool × Engines × Context :=
  match trigger.source with
  | .condition condition =>
    let (outcome, engines, context) := condition.holds engines context trigger.name
    (.guarded outcome, engines, context)
  | .composite composite =>
    let (outcome, engines, context) := composite.holds engines context trigger.name
    (.guarded outcome, engines, context)
  | .custom behavior => behavior.check engines context

/-- Runs the side effect of a custom check, then the action. -/
def execute (trigger : Trigger ν) (snapshot : Snapshot) : Effect ν :=
  let first :=
    match trigger.source with
    | .custom behavior => behavior.execute snapshot
    | _ => .none
  let second :=
    match trigger.action with
    | some action => action snapshot
    | none => .none
  first.andThen second

end Trigger

end Tripwire
