import Tripwire.Log.Journal
import Tripwire.Work.Queue

/-!
Worker pools.  A pool moves in four kinds of steps: a task is submitted, the
pool is stopped, an idle worker takes the greatest task, a busy worker finishes
its task.  Stopping queues one poison for each worker, which it takes when no
job is left.
-/

namespace Tripwire

universe u

inductive Worker (α : Type u)
  | idle
  | busy (task : Task α)
  | gone

namespace Worker

variable {α : Type u}

def isIdle : Worker α → Bool
  | idle => true
  | _ => false

def isGone : Worker α → Bool
  | gone => true
  | _ => false

end Worker

structure Pool (α : Type u) where
  size : Nat
  queue : Queue α
  running : Bool
  workers : List (Worker α)
  /-- The jobs that were handed out, in the order of their ends. -/
  finished : List α
  fresh : Nat
  /-- Whether the end of all workers was reported. -/
  reported : Bool

namespace Pool

variable {α : Type u}

/-- A pool of idle workers, at least one. -/
def new (size : Nat) : Pool α where
  size := max size 1
  queue := .empty
  running := true
  workers := List.replicate (max size 1) .idle
  finished := []
  fresh := 1
  reported := false

def queued (pool : Pool α) : Nat := pool.queue.jobs.length

def alive (pool : Pool α) : Nat := (pool.workers.filter fun worker => !worker.isGone).length

/-- Queues a task of the next identity if the pool is running, and tells whether it did. -/
def enqueue (pool : Pool α) (task : Nat → Task α) : Bool × Pool α :=
  let made := { pool with fresh := pool.fresh + 1 }
  if pool.running then (true, { made with queue := pool.queue.push (task pool.fresh) })
  else (false, made)

def submit (pool : Pool α) (priority : Priority) (job : α) : Bool × Pool α :=
  pool.enqueue fun id => .new id priority job

/-- Submits a poison, which ends one worker. -/
def submitPoison (pool : Pool α) : Bool × Pool α := pool.enqueue .poison

/-- Stops taking jobs and poisons every worker; only the first call does. -/
def stop (pool : Pool α) : Bool × Pool α :=
  if pool.running then
    let poisons := (List.range pool.size).map fun offset => Task.poison (pool.fresh + offset)
    (true,
      { pool with
        running := false
        queue := pool.queue.pushAll poisons
        fresh := pool.fresh + pool.size })
  else (false, pool)

/-- The worker at a place takes the greatest task, if it is idle and there is one. -/
def take? (pool : Pool α) (place : Nat) : Option (Pool α) :=
  match pool.workers[place]?, pool.queue.pop? with
  | some .idle, some (task, queue) =>
    let worker := if task.isPoison then .gone else .busy task
    some { pool with queue := queue, workers := pool.workers.set place worker }
  | _, _ => none

/-- The worker at a place ends its task, however the job went. -/
def finish? (pool : Pool α) (place : Nat) : Option (Pool α) :=
  match pool.workers[place]? with
  | some (.busy task) =>
    some
      { pool with
        workers := pool.workers.set place .idle
        finished := pool.finished ++ task.start.1.toList }
  | _ => none

def serve? (pool : Pool α) (place : Nat) : Option (Pool α) :=
  (pool.take? place).map fun taken => (taken.finish? place).getD taken

/-- The first idle worker serves, as long as there are tasks; at most as often as said. -/
def serveUpTo : Nat → Pool α → Pool α
  | 0, pool => pool
  | fuel + 1, pool =>
    match pool.serve? (pool.workers.findIdx Worker.isIdle) with
    | some served => serveUpTo fuel served
    | none => pool

/-- Lets the workers go on until none of them can. -/
def settle (pool : Pool α) : Pool α := serveUpTo pool.queue.size pool

def collect (pool : Pool α) : List α × Pool α := (pool.finished, { pool with finished := [] })

def entry (pool : Pool α) (event : String) : Entry where
  source := "EventWorkerPool"
  trigger := event
  success := true
  elapsed := 0
  level := .info
  context := .ofList [("workers", .integer (Int64.ofNat pool.size))]

def startup (size : Nat) (journal : Journal) : Pool α × Journal :=
  let pool := new size
  (pool, (journal.write (pool.entry "Startup")).2)

/-- Stops a pool and reports it, the first time. -/
def shutdown (pool : Pool α) (journal : Journal) : Bool × Pool α × Journal :=
  match pool.stop with
  | (true, stopped) => (true, stopped, (journal.write (pool.entry "Shutdown")).2)
  | (false, stopped) => (false, stopped, journal)

/-- Tells whether all workers are gone, and reports it the first time that they are. -/
def await (pool : Pool α) (journal : Journal) : Bool × Pool α × Journal :=
  if pool.alive > 0 then (false, pool, journal)
  else if pool.reported then (true, pool, journal)
  else (true, { pool with reported := true }, (journal.write (pool.entry "Termination")).2)

end Pool

end Tripwire
