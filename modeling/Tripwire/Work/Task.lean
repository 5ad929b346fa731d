import Tripwire.Trigger.Basic

/-!
Tasks for workers.  A task carries a job, or is a poison that ends a worker; it
hands its job out once.
-/

namespace Tripwire

inductive Priority
  | low | medium | high
  deriving DecidableEq

namespace Priority

def text : Priority → String
  | low => "LOW"
  | medium => "MEDIUM"
  | high => "HIGH"

def level : Priority → Nat
  | low => 1
  | medium => 2
  | high => 3

def ofText? (text : String) : Option Priority :=
  [low, medium, high].find? fun priority => Text.sameLetters priority.text text

end Priority

inductive PoolError
  | spawn (name message : String)
  | failed (task : Nat) (message : String)
  | crashed (task : Nat) (message : String)
  | action (trigger : String) (error : TriggerError)
  deriving DecidableEq

namespace PoolError

def message : PoolError → String
  | spawn name message => s!"Failed to spawn {name}: {message}"
  | failed task message => s!"Task {task} failed: {message}"
  | crashed task message => s!"Task {task} panicked: {message}"
  | action trigger error => "Action of `" ++ trigger ++ "` failed: " ++ error.message

def kind (_ : PoolError) : ErrorKind := .dispatch

end PoolError

universe u

structure Task (α : Type u) where
  id : Nat
  priority : Priority
  /-- The job; none makes the task a poison. -/
  job : Option α
  executed : Bool

namespace Task

variable {α : Type u}

def new (id : Nat) (priority : Priority) (job : α) : Task α := ⟨id, priority, some job, false⟩

def poison (id : Nat) : Task α := ⟨id, .low, none, false⟩

def isPoison (task : Task α) : Bool := task.job.isNone

def text (task : Task α) : String :=
  let detail := if task.isPoison then "poison" else task.priority.text
  s!"EventTask#{task.id} ({detail})"

/-- The job that is to be done now, and the task that has handed it out. -/
def start (task : Task α) : Option α × Task α :=
  (if task.executed then none else task.job, { task with executed := true })

/-- Poison ranks below every job. -/
def band (task : Task α) : Nat := if task.isPoison then 0 else task.priority.level

/-- The greater task is taken first: by band, and of one band the older one. -/
def order (left right : Task α) : Ordering :=
  (compare left.band right.band).then (compare right.id left.id)

end Task

end Tripwire
