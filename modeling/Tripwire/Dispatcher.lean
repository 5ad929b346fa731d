import Tripwire.Config
import Tripwire.Work.Pool

/-!
Dispatchers.  A cycle checks the triggers in order on one live context, reports
every check, and queues the side effects of those that fire, each with a
snapshot of the context.
-/

namespace Tripwire

universe u

/-- What doing a job notes, and how it ends. -/
structure Outcome (ν : Type u) where
  notes : List ν
  result : Attempt PoolError Unit

inductive Job (ν : Type u)
  /-- The side effect of a trigger that fired. -/
  | execution (trigger : Trigger ν) (snapshot : Snapshot)
  | direct (outcome : Outcome ν)

namespace Job

variable {ν : Type u}

/-- How the side effect of a trigger fails; a crash counts as a failed execution. -/
def failure? (effect : Effect ν) : Option TriggerError :=
  match effect.outcome with
  | .ok _ => none
  | .error (.error error) => some error
  | .error (.crash crash) => some (.execution crash.message)

def run : Job ν → Outcome ν
  | execution trigger snapshot =>
    let effect := trigger.execute snapshot
    match failure? effect with
    | none => ⟨effect.notes, .ok ()⟩
    | some error => ⟨effect.notes, .error (.error (.action trigger.name error))⟩
  | direct outcome => outcome

end Job

structure Dispatcher (ν : Type u) where
  context : Context
  engines : Engines
  triggers : List (Trigger ν)
  pool : Pool (Job ν)
  journal : Journal

namespace Dispatcher

variable {ν : Type u}

def source : String := "EventDispatcher"

def new (context : Context) (engines : Engines) (workers : Nat) (journal : Journal) :
    Dispatcher ν :=
  let (pool, journal) := Pool.startup workers journal
  ⟨context, engines, [], pool, journal⟩

def ofConfig (config : Config) (engines : Engines) (journal : Journal) : Dispatcher ν :=
  new (.new config.mode) engines config.workers journal

def register (dispatcher : Dispatcher ν) (trigger : Trigger ν) : Dispatcher ν :=
  { dispatcher with triggers := dispatcher.triggers ++ [trigger] }

def clear (dispatcher : Dispatcher ν) : Dispatcher ν := { dispatcher with triggers := [] }

/-- Whether a check succeeds; an error or a crash counts as no. -/
def fires (outcome : Attempt TriggerError Bool) : Bool :=
  match outcome with
  | .ok success => success
  | .error _ => false

def checkEntry (trigger : Trigger ν) (success : Bool) (bindings : NameMap Value) : Entry where
  source := source
  trigger := trigger.name
  success := success
  elapsed := 0
  level := if success then .info else .debug
  context := bindings

/-- Checks one trigger, reports the check, and queues the side effect if it
fires; tells whether it was queued. -/
def pollOne (dispatcher : Dispatcher ν) (trigger : Trigger ν) : Bool × Dispatcher ν :=
  let (outcome, engines, context) := trigger.check dispatcher.engines dispatcher.context
  let success := fires outcome
  let journal := (dispatcher.journal.write (checkEntry trigger success context.bindings)).2
  let checked := { dispatcher with context := context, engines := engines, journal := journal }
  if success then
    let (accepted, pool) := checked.pool.submit .medium (.execution trigger context.snapshot)
    (accepted, { checked with pool := pool })
  else (false, checked)

/-- Checks some triggers in order; tells how many side effects were queued. -/
def pollAll (dispatcher : Dispatcher ν) : List (Trigger ν) → Nat × Dispatcher ν
  | [] => (0, dispatcher)
  | trigger :: rest =>
    let (accepted, dispatcher) := dispatcher.pollOne trigger
    let (count, dispatcher) := dispatcher.pollAll rest
    (count + accepted.toNat, dispatcher)

def poll (dispatcher : Dispatcher ν) : Nat × Dispatcher ν :=
  dispatcher.pollAll dispatcher.triggers

def dispatch (dispatcher : Dispatcher ν) (priority : Priority) (outcome : Outcome ν) :
    Bool × Dispatcher ν :=
  let (accepted, pool) := dispatcher.pool.submit priority (.direct outcome)
  (accepted, { dispatcher with pool := pool })

/-- Stops the pool; only the call that does so is reported. -/
def shutdown (dispatcher : Dispatcher ν) : Bool × Dispatcher ν :=
  match dispatcher.pool.shutdown dispatcher.journal with
  | (true, pool, journal) =>
    let entry := { pool.entry "EventWorkerPool.Shutdown" with source := source }
    (true, { dispatcher with pool := pool, journal := (journal.write entry).2 })
  | (false, pool, journal) => (false, { dispatcher with pool := pool, journal := journal })

def await (dispatcher : Dispatcher ν) : Bool × Dispatcher ν :=
  let (done, pool, journal) := dispatcher.pool.await dispatcher.journal
  (done, { dispatcher with pool := pool, journal := journal })

def failureEntry (trigger : Trigger ν) (error : TriggerError) : Entry where
  source := source
  trigger := trigger.name ++ " (execution)"
  success := false
  elapsed := 0
  level := .error
  context := .ofList [("error", .string error.message)]

def reports : Job ν → List Entry
  | .execution trigger snapshot =>
    ((Job.failure? (trigger.execute snapshot)).map (failureEntry trigger)).toList
  | .direct _ => []

/-- Lets the workers do what they can; returns what the jobs noted. -/
def settle (dispatcher : Dispatcher ν) : List ν × Dispatcher ν :=
  let (jobs, pool) := dispatcher.pool.settle.collect
  (jobs.flatMap fun job => job.run.notes,
    { dispatcher with
      pool := pool
      journal := dispatcher.journal.writeAll (jobs.flatMap reports) })

end Dispatcher

end Tripwire
