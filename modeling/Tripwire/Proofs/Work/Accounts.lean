import Tripwire.Proofs.Work.Site

/-!
Where the tasks of a pool are, whatever happened to it.

Jobs are counted as tasks: an accepted one is queued, in progress or done.
Poison is counted as a number: what waits and what workers took is what was put in.
-/

namespace Tripwire

universe u

variable {α : Type u}

section Places

variable {β : Type u} {items : List β} {place : Nat} {old : β}

theorem perm_cons_eraseIdx (found : items[place]? = some old) :
    items.Perm (old :: items.eraseIdx place) := by
  obtain ⟨within, rfl⟩ := List.getElem?_eq_some_iff.mp found
  exact (List.getElem_cons_eraseIdx_perm within).symm

theorem set_perm (found : items[place]? = some old) (new : β) :
    (items.set place new).Perm (new :: items.eraseIdx place) := by
  obtain ⟨within, _⟩ := List.getElem?_eq_some_iff.mp found
  exact List.set_perm_cons_eraseIdx within new

end Places

namespace Pool

variable {pool : Pool α} {place : Nat} {old : Worker α}

theorem filterMap_task?_cons (worker : Worker α) (workers : List (Worker α)) :
    (worker :: workers).filterMap Worker.task? =
      worker.task?.toList ++ workers.filterMap Worker.task? := by
  cases worker <;> rfl

theorem inProgress_set (found : pool.workers[place]? = some old) (new : Worker α) :
    ((pool.workers.set place new).filterMap Worker.task? ++ old.task?.toList).Perm
      (pool.inProgress ++ new.task?.toList) := by
  have after := (set_perm found new).filterMap Worker.task?
  have before := (perm_cons_eraseIdx found).filterMap Worker.task?
  rw [filterMap_task?_cons] at after before
  refine (after.append_right _).trans (.trans ?_ (before.append_right _).symm)
  refine List.perm_append_comm.trans ?_
  rw [List.append_assoc]
  exact List.perm_append_comm.append_left _

theorem goneCount_set (found : pool.workers[place]? = some old) (new : Worker α) :
    (pool.workers.set place new).countP Worker.isGone + old.isGone.toNat =
      pool.goneCount + new.isGone.toNat := by
  have after := (set_perm found new).countP_eq Worker.isGone
  have before := (perm_cons_eraseIdx found).countP_eq Worker.isGone
  rw [List.countP_cons] at after before
  rw [goneCount, after, before]
  cases old.isGone <;> cases new.isGone <;> simp

/-- A change of one worker moves the number of those left the other way than of those gone. -/
theorem alive_set {next : Pool α} {new : Worker α} (found : pool.workers[place]? = some old)
    (changed : next.workers = pool.workers.set place new) :
    next.alive + new.isGone.toNat = pool.alive + old.isGone.toNat := by
  have gone := goneCount_set found new
  have after := next.alive_add_goneCount
  have before := pool.alive_add_goneCount
  rw [changed, List.length_set, goneCount, changed] at after
  omega

theorem inProgress_eq_nil (none : pool.alive = 0) : pool.inProgress = [] := by
  have workers := pool.alive_add_goneCount
  rw [none, Nat.zero_add] at workers
  have gone := List.countP_eq_length.mp workers
  rw [inProgress, List.filterMap_eq_nil_iff]
  intro worker member
  cases worker with
  | gone => rfl
  | idle | busy => cases gone _ member

end Pool

/-- Where the tasks are that callers and workers have dealt with. -/
structure Accounts (trace : List (Event α)) (site : Site α) : Prop where
  sorted : site.pool.queue.Sorted
  placed : (Queue.real (accepted trace)).Perm
    (site.pool.queue.jobs ++ (site.pool.inProgress ++ done trace))
  started : (begun trace).Perm (site.pool.inProgress ++ done trace)
  finished : site.pool.finished = (done trace).reverse.filterMap fun task => task.start.1
  poison : site.pool.poisons + site.pool.goneCount =
    Queue.poisonCount (accepted trace) + if site.pool.running then 0 else site.pool.size
  gone : site.pool.goneCount = Queue.poisonCount (Site.takings trace)
  width : site.pool.workers.length = site.pool.size
  manned : 0 < site.pool.size

variable {trace : List (Event α)} {pool next : Pool α} {offered others : List (Task α)}
  {task : Task α} {place : Nat}

theorem accounts_new (size : Nat) : Accounts [] (Site.new size : Site α) where
  sorted := .nil
  placed := by
    simp [Site.new, Pool.new, Pool.inProgress, Worker.task?, Queue.jobs, Queue.empty, accepted,
      done]
  started := by simp [Site.new, Pool.new, Pool.inProgress, Worker.task?, begun, done]
  finished := rfl
  poison := by
    simp [Site.new, Pool.new, Pool.poisons, Pool.goneCount, Queue.poisonCount, Queue.empty,
      Worker.isGone, List.countP_replicate, accepted]
  gone := by
    simp [Site.new, Pool.new, Pool.goneCount, Worker.isGone, List.countP_replicate, Site.takings,
      Queue.poisonCount]
  width := List.length_replicate
  manned := Nat.lt_of_lt_of_le Nat.one_pos (Nat.le_max_right size 1)

theorem Accounts.enqueue {make : Nat → Task α} {answer : Bool}
    (accounts : Accounts trace ⟨pool, offered⟩)
    (submitted : pool.enqueue make = (answer, next)) :
    Accounts (.submitted (make pool.fresh) answer :: trace) ⟨next, others⟩ := by
  rcases Pool.enqueue_cases submitted with ⟨rfl, running, rfl⟩ | ⟨rfl, _, rfl⟩
  · have taken : accepted (.submitted (make pool.fresh) true :: trace) =
        [make pool.fresh] ++ accepted trace := rfl
    have poison := accounts.poison
    simp only [running, if_true, Nat.add_zero] at poison
    have count := pool.queue.poisonCount_push (make pool.fresh)
    exact {
      sorted := accounts.sorted.push _
      placed := by
        rw [taken, Queue.real_append]
        refine (accounts.placed.append_left _).trans ?_
        rw [← List.append_assoc]
        exact (pool.queue.jobs_push_perm _).symm.append_right _
      started := accounts.started
      finished := accounts.finished
      poison := by
        simp only [taken, Pool.poisons, count, Queue.poisonCount_append, running, if_true]
        rw [Nat.add_assoc]
        exact congrArg _ poison
      gone := accounts.gone
      width := accounts.width
      manned := accounts.manned }
  · exact { accounts with }

theorem Accounts.stop {first : Bool} (accounts : Accounts trace ⟨pool, offered⟩)
    (stopped : pool.stop = (first, next)) :
    Accounts (.stopped first :: trace) ⟨next, offered⟩ := by
  rcases Pool.stop_cases stopped with ⟨rfl, running, rfl⟩ | ⟨rfl, _, rfl⟩
  · have jobs := pool.queue.jobs_pushAll_of_poison pool.isPoison_of_mem_stopTasks
    have poison := accounts.poison
    simp only [running, if_true, Nat.add_zero] at poison
    exact {
      sorted := accounts.sorted.pushAll _
      placed := accounts.placed.trans (jobs.symm.append_right _)
      started := accounts.started
      finished := accounts.finished
      poison := by
        simp only [Pool.poisons, Queue.poisonCount_pushAll, Pool.poisonCount_stopTasks]
        change _ + pool.goneCount = Queue.poisonCount (accepted trace) + pool.size
        rw [← poison, Pool.poisons]
        omega
      gone := accounts.gone
      width := accounts.width
      manned := accounts.manned }
  · exact { accounts with }

theorem Accounts.take {rest : Queue α} (accounts : Accounts trace ⟨pool, offered⟩)
    (popped : pool.queue.pop? = some (task, rest)) (taken : pool.take? place = some next) :
    Accounts (.taken place task :: trace) ⟨next, offered⟩ := by
  obtain ⟨idle, rfl⟩ := Pool.take?_cases popped taken
  have count := Queue.poisonCount_of_pop? popped
  have gone := pool.goneCount_set idle (.after task)
  have moved := pool.inProgress_set idle (.after task)
  simp only [Worker.isGone_after, Worker.toList_task?_after, Worker.task?_idle,
    Worker.isGone_idle, Option.toList_none, List.append_nil, Bool.toNat_false,
    Nat.add_zero] at gone moved
  have jobs : pool.queue.jobs = Queue.real [task] ++ rest.jobs := by
    rw [Queue.jobs_eq, Queue.tasks_of_pop? popped]
    exact Queue.real_append [task] _
  have running : (Queue.real [task] ++ (pool.inProgress ++ done trace)).Perm
      ((pool.workers.set place (.after task)).filterMap Worker.task? ++ done trace) := by
    rw [← List.append_assoc]
    exact (List.perm_append_comm.trans moved.symm).append_right _
  exact {
    sorted := accounts.sorted.of_pop? popped
    placed := by
      refine accounts.placed.trans ?_
      rw [jobs]
      refine (List.perm_append_comm.append_right _).trans ?_
      rw [List.append_assoc]
      exact running.append_left _
    started := by
      have first : begun (.taken place task :: trace) = Queue.real [task] ++ begun trace :=
        Queue.real_append [task] _
      rw [first]
      exact (accounts.started.append_left _).trans running
    finished := accounts.finished
    poison := by
      have poison := accounts.poison
      simp only [Pool.poisons, count] at poison
      change Queue.poisonCount rest.tasks + _ = _
      change _ = Queue.poisonCount (accepted trace) + if pool.running then 0 else pool.size
      rw [← poison, Pool.goneCount, gone]
      omega
    gone := by
      have first : Site.takings (.taken place task :: trace) = [task] ++ Site.takings trace := rfl
      have one : Queue.poisonCount [task] = task.isPoison.toNat := by
        rw [Queue.poisonCount, List.countP_singleton]
        cases task.isPoison <;> rfl
      rw [first, Queue.poisonCount_append, one, ← accounts.gone, Nat.add_comm]
      exact gone
    width := List.length_set.trans accounts.width
    manned := accounts.manned }

theorem Accounts.finish (accounts : Accounts trace ⟨pool, offered⟩)
    (busy : pool.workers[place]? = some (.busy task)) (finished : pool.finish? place = some next) :
    Accounts (.ended place task :: trace) ⟨next, offered⟩ := by
  cases Pool.finish?_cases busy finished
  have gone := pool.goneCount_set busy .idle
  have moved := pool.inProgress_set busy .idle
  simp only [Worker.task?_idle, Worker.task?_busy, Worker.isGone_idle, Worker.isGone_busy,
    Option.toList_none, Option.toList_some, List.append_nil, Bool.toNat_false,
    Nat.add_zero] at gone moved
  have ends : done (.ended place task :: trace) = [task] ++ done trace := rfl
  have running : (pool.inProgress ++ done trace).Perm
      ((pool.workers.set place .idle).filterMap Worker.task? ++
        done (.ended place task :: trace)) := by
    rw [ends, ← List.append_assoc]
    exact moved.symm.append_right _
  exact {
    sorted := accounts.sorted
    placed := accounts.placed.trans (running.append_left _)
    started := accounts.started.trans running
    finished := by
      have before := accounts.finished
      simp only at before
      rw [ends, List.reverse_append, List.filterMap_append, ← before]
      cases handed : task.start.1 <;> simp [handed]
    poison := by
      have poison := accounts.poison
      simp only [← gone] at poison
      exact poison
    gone := gone.trans accounts.gone
    width := List.length_set.trans accounts.width
    manned := accounts.manned }

theorem Site.Run.accounts {size : Nat} {site : Site α} (run : Run size trace site) :
    Accounts trace site := by
  induction run with
  | start => exact accounts_new size
  | step _ step accounts =>
    cases step with
    | make _ => exact { accounts with }
    | submit _ submitted => exact accounts.enqueue submitted
    | send _ submitted => exact accounts.enqueue submitted
    | stop stopped => exact accounts.stop stopped
    | take popped taken => exact accounts.take popped taken
    | finish busy finished => exact accounts.finish busy finished

end Tripwire
