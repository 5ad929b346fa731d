import Tripwire.Proofs.Work.Queue
import Tripwire.Work.Pool

/-!
A pool and the callers around it.  Callers make tasks, submit them and stop the
pool; workers take tasks and end them.  Every step is atomic, and steps follow
each other in any order.
-/

namespace Tripwire

universe u

variable {α : Type u}

/-- A pool, and the tasks that callers have made and not submitted yet. -/
structure Site (α : Type u) where
  pool : Pool α
  offered : List (Task α)

inductive Event (α : Type u)
  | made (task : Task α)
  | submitted (task : Task α) (accepted : Bool)
  | stopped (first : Bool)
  | taken (place : Nat) (task : Task α)
  | ended (place : Nat) (task : Task α)

namespace Site

def new (size : Nat) : Site α := ⟨.new size, []⟩

/-- What callers and workers can do.  A task that is made may carry a job or be poison, and its
job may have been done by the caller. -/
inductive Step : Site α → Event α → Site α → Prop
  | make {pool : Pool α} {offered : List (Task α)} {task : Task α} :
      task.id = pool.fresh →
      Step ⟨pool, offered⟩ (.made task) ⟨{ pool with fresh := pool.fresh + 1 }, task :: offered⟩
  | submit {pool next : Pool α} {offered : List (Task α)} {place : Nat} {task : Task α}
      {accepted : Bool} :
      offered[place]? = some task → pool.enqueue (fun _ => task) = (accepted, next) →
      Step ⟨pool, offered⟩ (.submitted task accepted) ⟨next, offered.eraseIdx place⟩
  | send {pool next : Pool α} {offered : List (Task α)} {task : Nat → Task α} {accepted : Bool} :
      (∀ id, (task id).id = id) → pool.enqueue task = (accepted, next) →
      Step ⟨pool, offered⟩ (.submitted (task pool.fresh) accepted) ⟨next, offered⟩
  | stop {pool next : Pool α} {offered : List (Task α)} {first : Bool} :
      pool.stop = (first, next) → Step ⟨pool, offered⟩ (.stopped first) ⟨next, offered⟩
  | take {pool next : Pool α} {offered : List (Task α)} {place : Nat} {task : Task α}
      {rest : Queue α} :
      pool.queue.pop? = some (task, rest) → pool.take? place = some next →
      Step ⟨pool, offered⟩ (.taken place task) ⟨next, offered⟩
  | finish {pool next : Pool α} {offered : List (Task α)} {place : Nat} {task : Task α} :
      pool.workers[place]? = some (.busy task) → pool.finish? place = some next →
      Step ⟨pool, offered⟩ (.ended place task) ⟨next, offered⟩

/-- What happened, the latest first, from the opening of a pool. -/
inductive Run (size : Nat) : List (Event α) → Site α → Prop
  | start : Run size [] (new size)
  | step {trace : List (Event α)} {event : Event α} {site next : Site α} :
      Run size trace site → Step site event next → Run size (event :: trace) next

theorem step_submit {pool next : Pool α} {offered : List (Task α)} {priority : Priority} {job : α}
    {accepted : Bool} (submitted : pool.submit priority job = (accepted, next)) :
    Step ⟨pool, offered⟩ (.submitted (.new pool.fresh priority job) accepted) ⟨next, offered⟩ :=
  .send (fun _ => rfl) submitted

theorem step_submitPoison {pool next : Pool α} {offered : List (Task α)} {accepted : Bool}
    (submitted : pool.submitPoison = (accepted, next)) :
    Step ⟨pool, offered⟩ (.submitted (.poison pool.fresh) accepted) ⟨next, offered⟩ :=
  .send (fun _ => rfl) submitted

end Site

def accepted (trace : List (Event α)) : List (Task α) :=
  trace.filterMap fun
    | .submitted task true => some task
    | _ => none

def refused (trace : List (Event α)) : List (Task α) :=
  trace.filterMap fun
    | .submitted task false => some task
    | _ => none

def begun (trace : List (Event α)) : List (Task α) :=
  Queue.real (trace.filterMap fun
    | .taken _ task => some task
    | _ => none)

def done (trace : List (Event α)) : List (Task α) :=
  trace.filterMap fun
    | .ended _ task => some task
    | _ => none

namespace Site

/-- The tasks that workers took, poison included. -/
def takings (events : List (Event α)) : List (Task α) :=
  events.filterMap fun
    | .taken _ task => some task
    | _ => none

/-- The pool was stopped while it had a worker left: fewer poisons had been taken by then than it
has workers. -/
def StoppedInTime (size : Nat) : List (Event α) → Prop
  | [] => False
  | .stopped true :: earlier => Queue.poisonCount (takings earlier) < size
  | _ :: earlier => StoppedInTime size earlier

end Site

namespace Worker

def task? : Worker α → Option (Task α)
  | busy task => some task
  | _ => none

@[simp] theorem task?_idle : (idle : Worker α).task? = none := rfl

@[simp] theorem task?_busy (task : Task α) : (busy task).task? = some task := rfl

@[simp] theorem isGone_idle : (idle : Worker α).isGone = false := rfl

@[simp] theorem isGone_busy (task : Task α) : (busy task).isGone = false := rfl

/-- A worker that has taken a task: gone for poison, else busy. -/
def after (task : Task α) : Worker α := if task.isPoison then .gone else .busy task

@[simp] theorem isGone_after (task : Task α) : (after task).isGone = task.isPoison := by
  rw [after]
  cases task.isPoison <;> rfl

@[simp] theorem toList_task?_after (task : Task α) :
    (after task).task?.toList = Queue.real [task] := by
  rw [after]
  cases kind : task.isPoison with
  | true => rw [Queue.real_cons_of_poison kind]; rfl
  | false => rw [Queue.real_cons_of_job kind]; rfl

end Worker

namespace Pool

/-- The tasks that are being run, each by one worker. -/
def inProgress (pool : Pool α) : List (Task α) := pool.workers.filterMap Worker.task?

def goneCount (pool : Pool α) : Nat := pool.workers.countP Worker.isGone

def poisons (pool : Pool α) : Nat := Queue.poisonCount pool.queue.tasks

theorem alive_add_goneCount (pool : Pool α) :
    pool.alive + pool.goneCount = pool.workers.length := by
  have split := List.length_eq_countP_add_countP Worker.isGone (l := pool.workers)
  simp only [Bool.not_eq_true, Bool.decide_eq_false] at split
  rw [alive, goneCount, ← List.countP_eq_length_filter, split, Nat.add_comm]

/-- A queued task joins the queue of a pool that runs; the callers' counter moves in any case. -/
theorem enqueue_cases {pool next : Pool α} {task : Nat → Task α} {accepted : Bool}
    (submitted : pool.enqueue task = (accepted, next)) :
    (accepted = true ∧ pool.running = true ∧
      next = { pool with
        fresh := pool.fresh + 1, queue := pool.queue.push (task pool.fresh) }) ∨
    (accepted = false ∧ pool.running = false ∧ next = { pool with fresh := pool.fresh + 1 }) := by
  simp only [enqueue] at submitted
  split at submitted
  next running => cases submitted; exact .inl ⟨rfl, running, rfl⟩
  next stopped => cases submitted; exact .inr ⟨rfl, by simpa using stopped, rfl⟩

/-- The poison that stopping a pool queues. -/
def stopTasks (pool : Pool α) : List (Task α) :=
  (List.range pool.size).map fun offset => .poison (pool.fresh + offset)

theorem stop_cases {pool next : Pool α} {first : Bool} (stopped : pool.stop = (first, next)) :
    (first = true ∧ pool.running = true ∧
      next = { pool with
        running := false, queue := pool.queue.pushAll pool.stopTasks,
        fresh := pool.fresh + pool.size }) ∨
    (first = false ∧ pool.running = false ∧ next = pool) := by
  simp only [stop] at stopped
  split at stopped
  next running => cases stopped; exact .inl ⟨rfl, running, rfl⟩
  next notRunning => cases stopped; exact .inr ⟨rfl, by simpa using notRunning, rfl⟩

theorem isPoison_of_mem_stopTasks (pool : Pool α) :
    ∀ task ∈ pool.stopTasks, task.isPoison = true := by
  intro task member
  obtain ⟨_, _, rfl⟩ := List.mem_map.mp member
  rfl

theorem poisonCount_stopTasks (pool : Pool α) : Queue.poisonCount pool.stopTasks = pool.size := by
  rw [Queue.poisonCount, List.countP_eq_length.mpr pool.isPoison_of_mem_stopTasks, stopTasks,
    List.length_map, List.length_range]

/-- An idle worker takes the first task, and goes if that is poison. -/
theorem take?_cases {pool next : Pool α} {place : Nat} {task : Task α} {rest : Queue α}
    (popped : pool.queue.pop? = some (task, rest)) (taken : pool.take? place = some next) :
    pool.workers[place]? = some .idle ∧
      next = { pool with
        queue := rest,
        workers := pool.workers.set place (.after task) } := by
  simp only [take?] at taken
  split at taken
  next _ _ first queue idle again =>
    rw [popped] at again
    cases again
    cases taken
    exact ⟨idle, rfl⟩
  next => cases taken

theorem finish?_cases {pool next : Pool α} {place : Nat} {task : Task α}
    (busy : pool.workers[place]? = some (.busy task)) (finished : pool.finish? place = some next) :
    next = { pool with
      workers := pool.workers.set place .idle
      finished := pool.finished ++ task.start.1.toList } := by
  simp only [finish?, busy] at finished
  cases finished
  rfl

end Pool
end Tripwire
