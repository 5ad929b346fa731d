import Tripwire.Proofs.Work.Accounts

/-!
Pools neither lose nor repeat tasks, and drain before their workers are gone.
-/

namespace Tripwire

universe u

variable {α : Type u} {trace : List (Event α)} {site next : Site α}

namespace Site

/-- Every task that callers have made so far. -/
def known (site : Site α) (trace : List (Event α)) : List (Task α) :=
  site.offered ++ (accepted trace ++ refused trace)

/-- Tasks are told apart by identities that the counter has passed. -/
structure Named (trace : List (Event α)) (site : Site α) : Prop where
  distinct : ((site.known trace).map Task.id).Nodup
  passed : ∀ task ∈ site.known trace, task.id < site.pool.fresh

theorem Named.of_perm {after : List (Event α)} (named : Named trace site)
    (same : (next.known after).Perm (site.known trace))
    (later : site.pool.fresh ≤ next.pool.fresh) : Named after next where
  distinct := (same.map Task.id).nodup_iff.mpr named.distinct
  passed := fun task member =>
    Nat.lt_of_lt_of_le (named.passed task (same.mem_iff.mp member)) later

theorem Named.of_perm_cons {after : List (Event α)} {task : Task α} (named : Named trace site)
    (same : (next.known after).Perm (task :: site.known trace)) (new : task.id = site.pool.fresh)
    (later : site.pool.fresh < next.pool.fresh) : Named after next where
  distinct := by
    refine (same.map Task.id).nodup_iff.mpr (List.nodup_cons.mpr ⟨?_, named.distinct⟩)
    intro member
    obtain ⟨other, known, equal⟩ := List.mem_map.mp member
    have passed := named.passed other known
    omega
  passed := by
    intro other member
    rcases List.mem_cons.mp (same.mem_iff.mp member) with rfl | member
    · omega
    · exact Nat.lt_trans (named.passed other member) later

theorem fresh_enqueue {pool next : Pool α} {task : Nat → Task α} {answer : Bool}
    (submitted : pool.enqueue task = (answer, next)) : next.fresh = pool.fresh + 1 := by
  rcases Pool.enqueue_cases submitted with ⟨_, _, rfl⟩ | ⟨_, _, rfl⟩ <;> rfl

/-- A submitted task is among the accepted or among the refused ones. -/
theorem answered_perm (task : Task α) (answer : Bool) :
    (accepted (.submitted task answer :: trace) ++ refused (.submitted task answer :: trace)).Perm
      (task :: (accepted trace ++ refused trace)) := by
  cases answer with
  | true => exact .refl _
  | false => exact List.perm_middle

theorem Run.named {size : Nat} (run : Run size trace site) : Named trace site := by
  induction run with
  | start => exact ⟨.nil, nofun⟩
  | step _ step named =>
    cases step with
    | make new => exact named.of_perm_cons (.refl _) new (Nat.lt_succ_self _)
    | @submit pool next offered place task answer found submitted =>
      refine named.of_perm ?_ (fresh_enqueue submitted ▸ Nat.le_succ _)
      refine ((answered_perm _ answer).append_left _).trans ?_
      refine List.perm_middle.trans ?_
      exact (perm_cons_eraseIdx found).symm.append_right _
    | @send pool next offered task answer renamed submitted =>
      refine named.of_perm_cons ?_ (renamed pool.fresh)
        (fresh_enqueue submitted ▸ Nat.lt_succ_self _)
      exact ((answered_perm _ answer).append_left _).trans List.perm_middle
    | stop stopped =>
      refine named.of_perm (.refl _) ?_
      rcases Pool.stop_cases stopped with ⟨_, _, rfl⟩ | ⟨_, _, rfl⟩
      · exact Nat.le_add_right _ _
      · exact Nat.le_refl _
    | take popped taken =>
      obtain ⟨_, rfl⟩ := Pool.take?_cases popped taken
      exact named.of_perm (.refl _) (Nat.le_refl _)
    | finish busy finished =>
      cases Pool.finish?_cases busy finished
      exact named.of_perm (.refl _) (Nat.le_refl _)

/-- A worker goes only when no job waits. -/
theorem Step.jobs_eq_nil {event : Event α} (step : Step site event next)
    (sorted : site.pool.queue.Sorted) (fewer : next.pool.alive < site.pool.alive) :
    site.pool.queue.jobs = [] := by
  cases step with
  | make _ => exact absurd fewer (Nat.lt_irrefl _)
  | submit _ submitted | send _ submitted =>
    rcases Pool.enqueue_cases submitted with ⟨_, _, rfl⟩ | ⟨_, _, rfl⟩ <;>
      exact absurd fewer (Nat.lt_irrefl _)
  | stop stopped =>
    rcases Pool.stop_cases stopped with ⟨_, _, rfl⟩ | ⟨_, _, rfl⟩ <;>
      exact absurd fewer (Nat.lt_irrefl _)
  | @take pool next _ _ task _ popped taken =>
    obtain ⟨idle, changed⟩ := Pool.take?_cases popped taken
    cases kind : task.isPoison with
    | true => exact sorted.jobs_eq_nil popped kind
    | false =>
      have same := Pool.alive_set idle (congrArg Pool.workers changed)
      rw [Worker.isGone_after, kind, Worker.isGone_idle] at same
      exact absurd same (Nat.ne_of_lt fewer)
  | @finish pool next _ _ task busy finished =>
    have changed := Pool.finish?_cases busy finished
    have same := Pool.alive_set busy (congrArg Pool.workers changed)
    rw [Worker.isGone_idle, Worker.isGone_busy] at same
    exact absurd same (Nat.ne_of_lt fewer)

/-! ### The end of the workers -/

theorem StoppedInTime.mem {size : Nat} (inTime : StoppedInTime size trace) :
    .stopped true ∈ trace := by
  fun_induction StoppedInTime size trace with
  | case1 => cases inTime
  | case2 => exact List.mem_cons_self
  | case3 event earlier _ ih => exact List.mem_cons_of_mem event (ih inTime)

variable {size : Nat}

/-- A pool runs until it is stopped for the first time. -/
theorem Run.stopped_iff (run : Run size trace site) :
    .stopped true ∈ trace ↔ site.pool.running = false := by
  induction run with
  | start => exact ⟨nofun, nofun⟩
  | step _ step ih =>
    cases step with
    | make _ => simpa using ih
    | submit _ submitted | send _ submitted =>
      rcases Pool.enqueue_cases submitted with ⟨_, _, rfl⟩ | ⟨_, _, rfl⟩ <;> simpa using ih
    | stop stopped =>
      rcases Pool.stop_cases stopped with ⟨rfl, _, rfl⟩ | ⟨rfl, _, rfl⟩
      · simp
      · simpa using ih
    | take popped taken =>
      obtain ⟨_, rfl⟩ := Pool.take?_cases popped taken
      simpa using ih
    | finish busy finished =>
      cases Pool.finish?_cases busy finished
      simpa using ih

/-- A pool that was stopped in time has no job left when its last worker leaves. -/
theorem Run.jobs_eq_nil (run : Run size trace site)
    (inTime : StoppedInTime site.pool.size trace) (none : site.pool.alive = 0) :
    site.pool.queue.jobs = [] := by
  induction run with
  | start => cases inTime
  | @step earlier event site next run step ih =>
    cases step with
    | make _ => exact ih inTime none
    | submit _ submitted | send _ submitted =>
      rcases Pool.enqueue_cases submitted with ⟨rfl, running, rfl⟩ | ⟨rfl, _, rfl⟩
      · cases running.symm.trans (run.stopped_iff.mp (StoppedInTime.mem inTime))
      · exact ih inTime none
    | @stop pool next offered first stopped =>
      rcases Pool.stop_cases stopped with ⟨rfl, _, rfl⟩ | ⟨rfl, _, rfl⟩
      · have fewer : Queue.poisonCount (takings earlier) < pool.size := inTime
        have gone : pool.goneCount = Queue.poisonCount (takings earlier) := run.accounts.gone
        have workers : pool.alive + pool.goneCount = pool.size :=
          pool.alive_add_goneCount.trans run.accounts.width
        change pool.alive = 0 at none
        omega
      · exact ih inTime none
    | @take pool next offered place task rest popped taken =>
      obtain ⟨idle, changed⟩ := Pool.take?_cases popped taken
      have same := Pool.alive_set idle (congrArg Pool.workers changed)
      rw [Worker.isGone_after, Worker.isGone_idle, none] at same
      subst changed
      have before : pool.queue.jobs = [] := by
        cases kind : task.isPoison with
        | true => exact run.accounts.sorted.jobs_eq_nil popped kind
        | false =>
          rw [kind] at same
          exact ih inTime same.symm
      rw [Queue.jobs_eq, Queue.tasks_of_pop? popped] at before
      exact List.eq_nil_of_sublist_nil (before ▸ (List.sublist_cons_self task rest.tasks).filter _)
    | finish busy finished =>
      have same := Pool.alive_set busy (congrArg Pool.workers (Pool.finish?_cases busy finished))
      rw [Worker.isGone_idle, Worker.isGone_busy, none] at same
      cases Pool.finish?_cases busy finished
      exact ih inTime same.symm

/-- Callers that sent fewer poisons than there are workers stop the pool in time. -/
theorem Run.stoppedInTime (run : Run size trace site)
    (few : Queue.poisonCount (accepted trace) < site.pool.size)
    (stopped : site.pool.running = false) : StoppedInTime site.pool.size trace := by
  induction run with
  | start => cases stopped
  | @step earlier event site next run step ih =>
    cases step with
    | make _ => exact ih few stopped
    | submit _ submitted | send _ submitted =>
      rcases Pool.enqueue_cases submitted with ⟨rfl, running, rfl⟩ | ⟨rfl, _, rfl⟩
      · cases running.symm.trans stopped
      · exact ih few stopped
    | @stop pool next offered first answered =>
      rcases Pool.stop_cases answered with ⟨rfl, running, rfl⟩ | ⟨rfl, _, rfl⟩
      · have poison := run.accounts.poison
        simp only [running, if_true, run.accounts.gone] at poison
        have sent : Queue.poisonCount (takings earlier) ≤ Queue.poisonCount (accepted earlier) := by
          omega
        exact Nat.lt_of_le_of_lt sent few
      · exact ih few stopped
    | take popped taken =>
      obtain ⟨_, rfl⟩ := Pool.take?_cases popped taken
      exact ih few stopped
    | finish busy finished =>
      cases Pool.finish?_cases busy finished
      exact ih few stopped

end Site

namespace Accounts

theorem poisons_eq (accounts : Accounts trace site) (stopped : site.pool.running = false) :
    site.pool.poisons = site.pool.alive + Queue.poisonCount (accepted trace) := by
  have poison := accounts.poison
  have workers := site.pool.alive_add_goneCount
  rw [accounts.width] at workers
  rw [stopped] at poison
  simp only [Bool.false_eq_true, if_false] at poison
  omega

/-- A stopped pool has a task for each worker that waits for one. -/
theorem isSome_take? (accounts : Accounts trace site) (stopped : site.pool.running = false)
    {place : Nat} (idle : site.pool.workers[place]? = some .idle) :
    (site.pool.take? place).isSome = true := by
  have alive : 0 < site.pool.alive := by
    rw [Pool.alive, List.length_pos_iff_exists_mem]
    exact ⟨.idle, List.mem_filter.mpr ⟨List.mem_of_getElem? idle, rfl⟩⟩
  have some : site.pool.poisons ≠ 0 := by
    rw [accounts.poisons_eq stopped]
    omega
  rw [Pool.take?, idle, Queue.pop?]
  cases tasks : site.pool.queue.tasks with
  | nil => exact absurd (by rw [Pool.poisons, tasks]; rfl) some
  | cons head rest => rfl

/-- While a pool runs its workers leave only for poison that callers sent. -/
theorem running_eq_false (accounts : Accounts trace site)
    (few : Queue.poisonCount (accepted trace) < site.pool.size) (none : site.pool.alive = 0) :
    site.pool.running = false := by
  have poison := accounts.poison
  have workers := site.pool.alive_add_goneCount
  rw [accounts.width] at workers
  cases running : site.pool.running with
  | false => rfl
  | true =>
    simp only [running, if_true] at poison
    omega

end Accounts

namespace Site

/-- What callers may rely on, whatever they and the workers did. -/
structure Orderly (trace : List (Event α)) (site : Site α) : Prop where
  /-- The accepted tasks with a job are the queued ones, those in progress and those done. -/
  placed : (Queue.real (accepted trace)).Perm
    (site.pool.queue.jobs ++ (site.pool.inProgress ++ done trace))
  /-- They are all different, so that each is in one place only. -/
  distinct : ((accepted trace).map Task.id).Nodup
  /-- The tasks that workers took to run are in progress or done, and no task is taken twice. -/
  started : (begun trace).Perm (site.pool.inProgress ++ done trace)
  once : ((begun trace).map Task.id).Nodup
  /-- The jobs that were handed out are those of the tasks that are done. -/
  finished : site.pool.finished = (done trace).reverse.filterMap fun task => task.start.1
  refused : ∀ task ∈ refused trace, ∀ other ∈ begun trace, other.id ≠ task.id
  /-- A worker goes only when no job waits. -/
  leaves : ∀ event next, Step site event next → next.pool.alive < site.pool.alive →
    site.pool.queue.jobs = []
  /-- A stopped pool has a poison for each worker left, beside those that callers sent. -/
  poisons : .stopped true ∈ trace →
    site.pool.poisons = site.pool.alive + Queue.poisonCount (accepted trace)
  served : .stopped true ∈ trace → ∀ place, site.pool.workers[place]? = some .idle →
    (site.pool.take? place).isSome = true
  awaited : ∀ journal, (site.pool.await journal).1 = true ↔ site.pool.alive = 0
  /-- When a pool that was stopped in time has no worker left, all jobs are done, and what is left
  in the queue is as many poisons as callers sent. -/
  drained : StoppedInTime site.pool.size trace → site.pool.alive = 0 →
    (Queue.real (accepted trace)).Perm (done trace) ∧ site.pool.queue.jobs = [] ∧
      site.pool.poisons = Queue.poisonCount (accepted trace)
  /-- Where callers send no poison the workers leave only after the pool was stopped, and then
  everything that was accepted is done and nothing is left. -/
  complete : Queue.poisonCount (accepted trace) = 0 → site.pool.alive = 0 →
    .stopped true ∈ trace ∧ (∀ journal, (site.pool.await journal).1 = true) ∧
      (accepted trace).Perm (done trace) ∧ site.pool.queue.tasks = []

theorem Run.nodup_accepted {size : Nat} (run : Run size trace site) :
    ((accepted trace).map Task.id).Nodup := by
  have distinct := run.named.distinct
  rw [known, List.map_append, List.map_append] at distinct
  exact (List.nodup_append.mp (List.nodup_append.mp distinct).2.1).1

/-- What was begun was accepted. -/
theorem Run.begun_subperm {size : Nat} (run : Run size trace site) :
    (begun trace).Subperm (accepted trace) := by
  have accounts := run.accounts
  have real : (begun trace).Subperm (Queue.real (accepted trace)) := by
    refine accounts.started.subperm.trans ?_
    exact (List.sublist_append_right _ _).subperm.trans accounts.placed.symm.subperm
  exact real.trans List.filter_sublist.subperm

theorem Run.nodup_begun {size : Nat} (run : Run size trace site) :
    ((begun trace).map Task.id).Nodup := by
  obtain ⟨same, perm, sublist⟩ := run.begun_subperm
  exact (perm.map Task.id).nodup_iff.mp (run.nodup_accepted.sublist (sublist.map Task.id))

theorem Run.not_begun_of_refused {size : Nat} (run : Run size trace site) {task other : Task α}
    (turnedDown : task ∈ Tripwire.refused trace) (started : other ∈ begun trace) :
    other.id ≠ task.id := by
  have distinct := run.named.distinct
  rw [known, List.map_append, List.map_append] at distinct
  have apart := (List.nodup_append.mp (List.nodup_append.mp distinct).2.1).2.2
  exact apart _ (List.mem_map_of_mem (run.begun_subperm.subset started)) _
    (List.mem_map_of_mem turnedDown)

theorem await_iff (pool : Pool α) (journal : Journal) :
    (pool.await journal).1 = true ↔ pool.alive = 0 := by
  rw [Pool.await]
  split
  next some => exact ⟨nofun, fun none => absurd some (Nat.not_lt.mpr (Nat.le_of_eq none))⟩
  next none =>
    refine ⟨fun _ => Nat.eq_zero_of_not_pos none, fun _ => ?_⟩
    split <;> rfl

theorem Run.drained (run : Run size trace site) (inTime : StoppedInTime site.pool.size trace)
    (none : site.pool.alive = 0) :
    (Queue.real (accepted trace)).Perm (done trace) ∧ site.pool.queue.jobs = [] ∧
      site.pool.poisons = Queue.poisonCount (accepted trace) := by
  have accounts := run.accounts
  have jobs := run.jobs_eq_nil inTime none
  have placed := accounts.placed
  rw [jobs, Pool.inProgress_eq_nil none, List.nil_append, List.nil_append] at placed
  have poisons := accounts.poisons_eq (run.stopped_iff.mp inTime.mem)
  rw [none, Nat.zero_add] at poisons
  exact ⟨placed, jobs, poisons⟩

theorem Run.complete (run : Run size trace site)
    (clean : Queue.poisonCount (accepted trace) = 0) (none : site.pool.alive = 0) :
    .stopped true ∈ trace ∧ (∀ journal, (site.pool.await journal).1 = true) ∧
      (accepted trace).Perm (done trace) ∧ site.pool.queue.tasks = [] := by
  have few : Queue.poisonCount (accepted trace) < site.pool.size := clean ▸ run.accounts.manned
  have stopped := run.accounts.running_eq_false few none
  obtain ⟨placed, jobs, poisons⟩ := run.drained (run.stoppedInTime few stopped) none
  have real : Queue.real (accepted trace) = accepted trace := by
    refine List.filter_eq_self.mpr fun task member => ?_
    simpa using List.countP_eq_zero.mp clean task member
  exact ⟨run.stopped_iff.mpr stopped, fun journal => (await_iff _ journal).mpr none,
    real ▸ placed, Queue.eq_nil_of_real jobs (poisons.trans clean)⟩

/-- No run loses a task or runs one twice, whatever the size of the pool, and none leaves one
behind in a pool that was stopped in time. -/
theorem Run.orderly (run : Run size trace site) : Orderly trace site where
  placed := run.accounts.placed
  distinct := run.nodup_accepted
  started := run.accounts.started
  once := run.nodup_begun
  finished := run.accounts.finished
  refused := fun _ turnedDown _ started => run.not_begun_of_refused turnedDown started
  leaves := fun _ _ step fewer => step.jobs_eq_nil run.accounts.sorted fewer
  poisons := fun stopped => run.accounts.poisons_eq (run.stopped_iff.mp stopped)
  served := fun stopped _ idle => run.accounts.isSome_take? (run.stopped_iff.mp stopped) idle
  awaited := await_iff site.pool
  drained := run.drained
  complete := run.complete

/-- A pool of one worker, stopped while it runs the only job, does it and is empty at the end. -/
theorem Run.orderly_of_one_job :
    ∃ (trace : List (Event String)) (site : Site String), Run 1 trace site ∧
      .stopped true ∈ trace ∧ StoppedInTime site.pool.size trace ∧ site.pool.alive = 0 ∧
      accepted trace = [.new 1 .low "a"] ∧ (accepted trace).Perm (done trace) ∧
      site.pool.queue.tasks = [] ∧ site.pool.finished = ["a"] := by
  have sent : Run 1 [.submitted (.new 1 .low "a") true] _ :=
    Run.start.step (step_submit (α := String) rfl)
  have taken : Run 1 (.taken 0 _ :: _) _ := sent.step (.take rfl rfl)
  have stopped : Run 1 (.stopped true :: _) _ := taken.step (.stop rfl)
  have ended : Run 1 (.ended 0 _ :: _) _ := stopped.step (.finish rfl rfl)
  have gone : Run 1 (.taken 0 _ :: _) _ := ended.step (.take rfl rfl)
  have inTime := gone.stoppedInTime (by decide) rfl
  obtain ⟨wasStopped, _, complete, empty⟩ := (Run.orderly gone).complete rfl rfl
  exact ⟨_, _, gone, wasStopped, inTime, rfl, rfl, complete, empty, (Run.orderly gone).finished⟩

/-- A caller that sends poison to the only worker and a job after that loses the job, though it was
accepted and the end of the workers is reported. -/
theorem Run.orderly_against_poison :
    ∃ (trace : List (Event String)) (site : Site String), Run 1 trace site ∧
      .stopped true ∈ trace ∧ accepted trace = [.new 2 .low "a", .poison 1] ∧
      site.pool.alive = 0 ∧ (site.pool.await ⟨0, none⟩).1 = true ∧
      done trace = [] ∧ site.pool.queue.jobs = [.new 2 .low "a"] ∧
      site.pool.poisons ≠ site.pool.alive := by
  have poisoned : Run 1 [.submitted (.poison 1) true] _ :=
    Run.start.step (step_submitPoison (α := String) rfl)
  have gone : Run 1 (.taken 0 _ :: _) _ := poisoned.step (.take rfl rfl)
  have sent : Run 1 (.submitted (.new 2 .low "a") true :: _) _ := gone.step (step_submit rfl)
  have stopped : Run 1 (.stopped true :: _) _ := sent.step (.stop rfl)
  exact ⟨_, _, stopped, List.mem_cons_self, rfl, rfl, rfl, rfl, rfl, by decide⟩

end Site
end Tripwire
