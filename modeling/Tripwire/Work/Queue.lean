import Tripwire.Work.Task

/-!
Queues of tasks, kept with the greatest task first.
-/

namespace Tripwire

universe u

structure Queue (α : Type u) where
  tasks : List (Task α)

namespace Queue

variable {α : Type u}

def empty : Queue α := ⟨[]⟩

def size (queue : Queue α) : Nat := queue.tasks.length

/-- Puts a task before the first one that it is greater than. -/
def place (task : Task α) : List (Task α) → List (Task α)
  | [] => [task]
  | head :: rest => if task.order head = .gt then task :: head :: rest else head :: place task rest

def push (queue : Queue α) (task : Task α) : Queue α := ⟨place task queue.tasks⟩

def pushAll (queue : Queue α) (tasks : List (Task α)) : Queue α := tasks.foldl push queue

/-- The greatest task and the others. -/
def pop? (queue : Queue α) : Option (Task α × Queue α) :=
  match queue.tasks with
  | [] => none
  | head :: rest => some (head, ⟨rest⟩)

/-- The tasks with a job. -/
def jobs (queue : Queue α) : List (Task α) := queue.tasks.filter fun task => !task.isPoison

theorem size_of_pop? {queue rest : Queue α} {task : Task α}
    (popped : queue.pop? = some (task, rest)) : queue.size = rest.size + 1 := by
  obtain ⟨tasks⟩ := queue
  cases tasks with
  | nil => cases popped
  | cons head tail => cases popped; rfl

end Queue

end Tripwire
