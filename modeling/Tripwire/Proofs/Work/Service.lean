import Tripwire.Proofs.Work.Accounts
import Tripwire.Proofs.Work.Schedule

/-!
In which order the tasks of a pool are begun.

The queue of a pool is only pushed to and taken from, and what is pushed has an
identity of its own (`Site.Run.filled`).  So while nothing new is submitted,
workers take by the schedule of what is queued (`Serves.taken_prefix`).  A single
worker ends each task before it takes the next, and rests when no job is left.
-/

namespace Tripwire

universe u

variable {α : Type u}

/-- Tasks under identities of their own, all drawn from a counter before it reached a number. -/
structure Task.Drawn (tasks : List (Task α)) (fresh : Nat) : Prop where
  distinct : Distinct tasks
  passed : ∀ task ∈ tasks, task.id < fresh

namespace Task.Drawn

variable {tasks others added : List (Task α)} {fresh later : Nat}

theorem of_subperm (drawn : Drawn tasks fresh) (fewer : others.Subperm tasks)
    (passed : fresh ≤ later) : Drawn others later where
  distinct := by
    obtain ⟨same, perm, sublist⟩ := fewer
    exact Distinct.of_perm (drawn.distinct.sublist (sublist.map Task.id)) perm
  passed task member := Nat.lt_of_lt_of_le (drawn.passed task (fewer.subset member)) passed

theorem append (drawn : Drawn tasks fresh) (distinct : Distinct added)
    (new : ∀ task ∈ added, fresh ≤ task.id ∧ task.id < later) (passed : fresh ≤ later) :
    Drawn (added ++ tasks) later where
  distinct := by
    rw [Distinct, List.map_append]
    refine List.nodup_append.mpr ⟨distinct, drawn.distinct, ?_⟩
    intro id fromAdded other fromTasks same
    obtain ⟨task, member, rfl⟩ := List.mem_map.mp fromAdded
    obtain ⟨old, memberOld, rfl⟩ := List.mem_map.mp fromTasks
    have above := (new task member).1
    have below := drawn.passed old memberOld
    omega
  passed task member := by
    rcases List.mem_append.mp member with inside | before
    · exact (new task inside).2
    · exact Nat.lt_of_lt_of_le (drawn.passed task before) passed

theorem cons {task : Task α} (drawn : Drawn tasks fresh) (new : task.id = fresh) :
    Drawn (task :: tasks) (fresh + 1) := by
  have single : Distinct [task] := List.nodup_singleton _
  refine drawn.append single (fun other member => ?_) (Nat.le_succ fresh)
  rw [List.mem_singleton.mp member, new]
  exact ⟨Nat.le_refl _, Nat.lt_succ_self _⟩

end Task.Drawn

theorem Queue.Moves.pushAll {moves : List (Queue.Move α)} {queue : Queue α}
    (moved : Queue.Moves moves queue) (tasks : List (Task α)) :
    ∃ more, Queue.Moves more (queue.pushAll tasks) ∧
      (Queue.pushed more).Perm (tasks ++ Queue.pushed moves) := by
  induction tasks generalizing moves queue with
  | nil => exact ⟨moves, moved, .refl _⟩
  | cons task rest ih =>
    have one : Moves (.pushed task :: moves) (queue.push task) := moved.push
    obtain ⟨more, further, same⟩ := ih one
    exact ⟨more, further, same.trans List.perm_middle⟩

theorem Pool.inProgress_of_single {pool : Pool α} {worker : Worker α}
    (single : pool.workers = [worker]) : pool.inProgress = worker.task?.toList := by
  rw [inProgress, single, filterMap_task?_cons]
  exact List.append_nil _

namespace Site

variable {size : Nat} {trace : List (Event α)} {site next : Site α}

/-- The queue of a site came about by moves, and whatever callers hold or pushed is told apart. -/
structure Filled (moves : List (Queue.Move α)) (site : Site α) : Prop where
  moved : Queue.Moves moves site.pool.queue
  drawn : Task.Drawn (site.offered ++ Queue.pushed moves) site.pool.fresh

theorem distinct_stopTasks (pool : Pool α) : Task.Distinct pool.stopTasks := by
  rw [Task.Distinct, Pool.stopTasks, List.map_map]
  exact List.nodup_range.map_on fun _ _ _ _ same => Nat.add_left_cancel same

theorem Filled.step {moves : List (Queue.Move α)} {event : Event α} (filled : Filled moves site)
    (step : Step site event next) : ∃ more, Filled more next := by
  obtain ⟨moved, drawn⟩ := filled
  cases step with
  | make new => exact ⟨moves, moved, drawn.cons new⟩
  | @submit pool next offered place task accepted found submitted =>
    have picked := (perm_cons_eraseIdx found).symm.append_right (Queue.pushed moves)
    rcases Pool.enqueue_cases submitted with ⟨_, _, rfl⟩ | ⟨_, _, rfl⟩
    · have same := List.perm_middle.trans picked
      exact ⟨_, moved.push, drawn.of_subperm same.subperm (Nat.le_succ _)⟩
    · have fewer := (List.sublist_cons_self _ _).subperm.trans picked.subperm
      exact ⟨moves, moved, drawn.of_subperm fewer (Nat.le_succ _)⟩
  | @send pool next offered task accepted named submitted =>
    rcases Pool.enqueue_cases submitted with ⟨_, _, rfl⟩ | ⟨_, _, rfl⟩
    · have added := drawn.cons (named pool.fresh)
      exact ⟨_, moved.push, added.of_subperm List.perm_middle.subperm (Nat.le_refl _)⟩
    · exact ⟨moves, moved, drawn.of_subperm (.refl _) (Nat.le_succ _)⟩
  | @stop pool next offered first stopped =>
    rcases Pool.stop_cases stopped with ⟨_, _, rfl⟩ | ⟨_, _, rfl⟩
    · obtain ⟨more, further, same⟩ := moved.pushAll pool.stopTasks
      have added : Task.Drawn (pool.stopTasks ++ (offered ++ Queue.pushed moves))
          (pool.fresh + pool.size) := by
        refine drawn.append (distinct_stopTasks pool) (fun task member => ?_) (Nat.le_add_right _ _)
        obtain ⟨offset, inside, rfl⟩ := List.mem_map.mp member
        have bound := List.mem_range.mp inside
        exact ⟨Nat.le_add_right _ _, Nat.add_lt_add_left bound _⟩
      have placed : (offered ++ Queue.pushed more).Perm
          (pool.stopTasks ++ (offered ++ Queue.pushed moves)) :=
        (same.append_left offered).trans (List.perm_append_comm_assoc _ _ _)
      exact ⟨more, further, added.of_subperm placed.subperm (Nat.le_refl _)⟩
    · exact ⟨moves, moved, drawn⟩
  | take popped taken =>
    obtain ⟨_, rfl⟩ := Pool.take?_cases popped taken
    exact ⟨_, moved.take popped, drawn⟩
  | finish busy finished =>
    cases Pool.finish?_cases busy finished
    exact ⟨moves, moved, drawn⟩

theorem Run.filled (run : Run size trace site) : ∃ moves, Filled moves site := by
  induction run with
  | start => exact ⟨[], .start, .nil, nofun⟩
  | step _ step ih =>
    obtain ⟨moves, filled⟩ := ih
    exact filled.step step

theorem Run.distinct (run : Run size trace site) : Task.Distinct site.pool.queue.tasks := by
  obtain ⟨moves, moved, drawn⟩ := run.filled
  have queued : site.pool.queue.tasks.Subperm (site.offered ++ Queue.pushed moves) :=
    (List.sublist_append_right _ _).subperm.trans
      (moved.conserved.symm.subperm.trans (List.sublist_append_right _ _).subperm)
  exact (drawn.of_subperm queued (Nat.le_refl _)).distinct

theorem Run.sorted (run : Run size trace site) : site.pool.queue.Sorted := by
  obtain ⟨moves, moved, _⟩ := run.filled
  exact moved.sorted

/-! ### Workers that are left to themselves -/

/-- Workers take and end tasks, and callers do nothing; what happens stands in its order. -/
inductive Serves : Site α → List (Event α) → Site α → Prop
  | rest {site : Site α} : Serves site [] site
  | take {site next after : Site α} {place : Nat} {task : Task α} {events : List (Event α)} :
      Step site (.taken place task) next → Serves next events after →
      Serves site (.taken place task :: events) after
  | finish {site next after : Site α} {place : Nat} {task : Task α} {events : List (Event α)} :
      Step site (.ended place task) next → Serves next events after →
      Serves site (.ended place task :: events) after

/-- No worker can do anything. -/
def AtRest (site : Site α) : Prop :=
  ∀ place, site.pool.take? place = none ∧ site.pool.finish? place = none

variable {events : List (Event α)} {after : Site α} {worker : Worker α}

theorem begun_eq (events : List (Event α)) : begun events = Queue.real (takings events) := rfl

/-- What is taken is what stood first in the queue. -/
theorem Serves.queue (serves : Serves site events after) :
    site.pool.queue.tasks = takings events ++ after.pool.queue.tasks := by
  induction serves with
  | rest => rfl
  | take step _ ih =>
    cases step with
    | take popped taken =>
      obtain ⟨_, rfl⟩ := Pool.take?_cases popped taken
      rw [Queue.tasks_of_pop? popped]
      exact congrArg _ ih
  | finish step _ ih =>
    cases step with
    | finish busy finished =>
      cases Pool.finish?_cases busy finished
      exact ih

/-- The only worker is at the first place. -/
theorem only_worker {workers : List (Worker α)} {place : Nat} {found : Worker α}
    (single : workers = [worker]) (here : workers[place]? = some found) :
    worker = found ∧ ∀ new, workers.set place new = [new] := by
  subst single
  cases place with
  | zero => exact ⟨Option.some.inj here, fun _ => rfl⟩
  | succ place => cases here

/-- A single worker ends each task before it takes the next one. -/
theorem Serves.alternates (serves : Serves site events after)
    (single : site.pool.workers = [worker]) :
    ∃ last, after.pool.workers = [last] ∧
      worker.task?.toList ++ begun events = done events ++ last.task?.toList := by
  induction serves generalizing worker with
  | rest => exact ⟨worker, single, List.append_nil _⟩
  | @take _ _ _ _ task _ step _ ih =>
    cases step with
    | @take pool _ _ _ _ rest popped taken =>
      obtain ⟨idle, rfl⟩ := Pool.take?_cases popped taken
      obtain ⟨rfl, changed⟩ := only_worker single idle
      obtain ⟨last, ends, alternate⟩ := ih (changed (.after task))
      rw [Worker.toList_task?_after] at alternate
      refine ⟨last, ends, .trans ?_ alternate⟩
      exact Queue.real_append [task] _
  | @finish _ _ _ _ task _ step _ ih =>
    cases step with
    | finish busy finished =>
      cases Pool.finish?_cases busy finished
      obtain ⟨rfl, changed⟩ := only_worker single busy
      obtain ⟨last, ends, alternate⟩ := ih (changed .idle)
      exact ⟨last, ends, congrArg (task :: ·) alternate⟩

/-- Once a worker is gone no job is queued. -/
theorem Serves.jobs_eq_nil (serves : Serves site events after) (sorted : site.pool.queue.Sorted)
    (kept : ∀ worker ∈ site.pool.workers, worker.isGone = true → site.pool.queue.jobs = []) :
    ∀ worker ∈ after.pool.workers, worker.isGone = true → after.pool.queue.jobs = [] := by
  induction serves with
  | rest => exact kept
  | @take _ _ _ _ task _ step _ ih =>
    cases step with
    | @take pool _ _ _ _ rest popped taken =>
      obtain ⟨idle, rfl⟩ := Pool.take?_cases popped taken
      refine ih (sorted.of_pop? popped) fun worker member gone => ?_
      have none : pool.queue.jobs = [] := by
        rcases List.mem_or_eq_of_mem_set member with old | rfl
        · exact kept worker old gone
        · exact sorted.jobs_eq_nil popped ((Worker.isGone_after task).symm.trans gone)
      have fewer : rest.jobs.Sublist pool.queue.jobs := by
        rw [Queue.jobs_eq, Queue.jobs_eq, Queue.tasks_of_pop? popped]
        exact (List.sublist_cons_self task rest.tasks).filter _
      exact List.eq_nil_of_sublist_nil (none ▸ fewer)
  | @finish _ _ _ _ task _ step _ ih =>
    cases step with
    | finish busy finished =>
      cases Pool.finish?_cases busy finished
      refine ih sorted fun worker member gone => ?_
      rcases List.mem_or_eq_of_mem_set member with old | rfl
      · exact kept worker old gone
      · cases gone

/-- When a single worker rests no job is queued. -/
theorem AtRest.jobs_eq_nil (atRest : AtRest site) (single : site.pool.workers = [worker])
    (kept : worker.isGone = true → site.pool.queue.jobs = []) : site.pool.queue.jobs = [] := by
  obtain ⟨notTaken, notEnded⟩ := atRest 0
  cases worker with
  | gone => exact kept rfl
  | busy task => simp [Pool.finish?, single] at notEnded
  | idle =>
    cases popped : site.pool.queue.pop? with
    | none =>
      rw [Queue.jobs_eq, Queue.pop?_eq_none_iff.mp popped]
      rfl
    | some first => simp [Pool.take?, single, popped] at notTaken

/-- How many steps the workers have at most before them. -/
def ahead (site : Site α) : Nat := 2 * site.pool.queue.size + site.pool.inProgress.length

theorem atRest_of_single (single : site.pool.workers = [worker])
    (idle : worker = .idle → site.pool.queue.pop? = none) (free : worker.task? = none) :
    AtRest site := by
  intro place
  cases place with
  | succ place => simp [Pool.take?, Pool.finish?, single]
  | zero =>
    cases worker with
    | gone => simp [Pool.take?, Pool.finish?, single]
    | busy task => cases free
    | idle => simp [Pool.take?, Pool.finish?, single, idle rfl]

/-- A single worker rests, or it goes on and has fewer steps before it. -/
theorem rests_or_steps (single : site.pool.workers = [worker]) :
    AtRest site ∨ ∃ event next changed, next.pool.workers = [changed] ∧ next.ahead < site.ahead ∧
      ∀ {events after}, Serves next events after → Serves site (event :: events) after := by
  have alone : site.pool.inProgress = worker.task?.toList := Pool.inProgress_of_single single
  cases worker with
  | gone => exact .inl (atRest_of_single single nofun rfl)
  | busy task =>
    have here : site.pool.workers[0]? = some (.busy task) := by rw [single]; rfl
    let next : Pool α :=
      { site.pool with
        workers := site.pool.workers.set 0 .idle
        finished := site.pool.finished ++ task.start.1.toList }
    have finished : site.pool.finish? 0 = some next := by simp only [Pool.finish?, here, next]
    have changed : next.workers = [.idle] := by simp only [next, single, List.set_cons_zero]
    refine .inr ⟨_, ⟨next, site.offered⟩, .idle, changed, ?_, .finish (.finish here finished)⟩
    rw [ahead, ahead, Pool.inProgress_of_single changed, alone]
    exact Nat.lt_succ_self _
  | idle =>
    cases popped : site.pool.queue.pop? with
    | none => exact .inl (atRest_of_single single (fun _ => popped) rfl)
    | some first =>
      obtain ⟨task, rest⟩ := first
      have here : site.pool.workers[0]? = some .idle := by rw [single]; rfl
      let next : Pool α :=
        { site.pool with queue := rest, workers := site.pool.workers.set 0 (.after task) }
      have taken : site.pool.take? 0 = some next := by
        simp only [Pool.take?, here, popped, next, Worker.after]
      have changed : next.workers = [.after task] := by simp only [next, single, List.set_cons_zero]
      refine .inr ⟨_, ⟨next, site.offered⟩, _, changed, ?_, .take (.take popped taken)⟩
      have size := Queue.size_of_pop? popped
      have one : (Queue.real [task]).length ≤ 1 := List.length_filter_le _ _
      rw [ahead, ahead, Pool.inProgress_of_single changed, alone, Worker.toList_task?_after, size]
      simp only [next, Worker.task?_idle, Option.toList_none, List.length_nil]
      omega

/-- A single worker that is left to itself comes to rest. -/
theorem exists_serves (single : site.pool.workers = [worker]) :
    ∃ events after, Serves site events after ∧ AtRest after := by
  generalize steps : site.ahead = bound
  induction bound using Nat.strongRecOn generalizing site worker with
  | ind bound ih =>
    rcases rests_or_steps single with atRest | ⟨event, next, changed, alone, fewer, serve⟩
    · exact ⟨[], site, .rest, atRest⟩
    · obtain ⟨events, after, serves, atRest⟩ := ih _ (steps ▸ fewer) alone rfl
      exact ⟨event :: events, after, serve serves, atRest⟩

/-- A pool of one worker that is busy with one task and has others queued serves these by their
schedule. -/
structure InOrder (gate : Task α) (tasks : List (Task α)) (site : Site α) : Prop where
  /-- Whatever the worker does, it takes tasks by the schedule. -/
  taken : ∀ events after, Serves site events after → takings events <+: schedule tasks
  /-- It ends each task before it takes the next one. -/
  alternates : ∀ events after, Serves site events after →
    gate :: begun events = done events ++ after.pool.inProgress
  /-- When it can do nothing more it has begun all jobs, each in its turn. -/
  complete : ∀ events after, Serves site events after → AtRest after →
    begun events = jobSchedule tasks
  rests : ∃ events after, Serves site events after ∧ AtRest after

theorem Run.inOrder {gate : Task α} {tasks : List (Task α)} (run : Run size trace site)
    (held : site.pool.workers = [.busy gate]) (queued : site.pool.queue.tasks.Perm tasks) :
    InOrder gate tasks site := by
  have planned : site.pool.queue.tasks = schedule tasks :=
    eq_schedule (run.distinct.of_perm queued) queued run.sorted
  refine ⟨fun events after serves => ?taken, fun events after serves => ?alternates,
    fun events after serves atRest => ?complete, exists_serves held⟩
  case taken =>
    rw [← planned, serves.queue]
    exact List.prefix_append _ _
  case alternates =>
    obtain ⟨last, single, alternate⟩ := serves.alternates held
    rw [Pool.inProgress_of_single single]
    exact alternate
  case complete =>
    obtain ⟨last, single, _⟩ := serves.alternates held
    have kept := serves.jobs_eq_nil run.sorted fun worker member gone => by
      rw [held, List.mem_singleton] at member
      rw [member] at gone
      cases gone
    have none : Queue.real after.pool.queue.tasks = [] :=
      atRest.jobs_eq_nil single (kept last (single ▸ List.mem_singleton_self last))
    rw [← real_schedule, ← planned, serves.queue, Queue.real_append, none, List.append_nil,
      begun_eq]

end Site

/-- Tasks are served in one order.  Their order is total, and none but a task itself is its equal
among tasks told apart by their identities.  A queue, however it was pushed to and taken from,
gives the job of highest priority and among these the oldest, poison only when there is no job,
and so drains by the schedule of what is left in it; how this was inserted makes no difference.
A single worker that was held while tasks were queued begins them by this schedule. -/
theorem served_in_one_order :
    (∀ left right : Task α, right.order left = (left.order right).swap) ∧
    (∀ first second third : Task α, first.order second = .gt → second.order third = .gt →
      first.order third = .gt) ∧
    (∀ tasks : List (Task α), Task.Distinct tasks → ∀ left ∈ tasks, ∀ right ∈ tasks,
      left.order right = .eq ↔ left.id = right.id) ∧
    (∀ (moves : List (Queue.Move α)) queue left, Queue.Moves moves queue →
      Task.Distinct (Queue.pushed moves) →
      (Queue.pushed moves).Perm (Queue.taken moves ++ left) → queue.Served left) ∧
    (∀ first second : List (Task α), Task.Distinct first → first.Perm second →
      Queue.empty.pushAll first = Queue.empty.pushAll second) ∧
    ∀ trace (site : Site α) gate tasks, Site.Run 1 trace site →
      site.pool.workers = [.busy gate] → site.pool.queue.tasks.Perm tasks →
      site.InOrder gate tasks := by
  refine ⟨fun left right => Std.OrientedCmp.eq_swap,
    fun first second third one other => Std.TransCmp.gt_trans one other,
    fun tasks distinct left member right memberRight => ?equal,
    fun moves queue left moved distinct remaining => moved.served distinct remaining,
    fun first second distinct same => Queue.pushAll_of_perm distinct same,
    fun trace site gate tasks run held queued => run.inOrder held queued⟩
  case equal =>
    rw [Task.order_eq_eq_iff]
    refine ⟨fun same => same.2, fun same => ?_⟩
    rw [distinct.eq_of_id member memberRight same]
    exact ⟨rfl, rfl⟩

/-- A queue that is taken from while it fills, and a worker that is held by a first task while
others are queued. -/
theorem served_in_one_order_of_held :
    let gate : Task String := .new 1 .low "gate"
    let low : Task String := .new 2 .low "low"
    let high : Task String := .new 3 .high "high"
    let medium : Task String := .new 4 .medium "medium"
    let other : Task String := .new 5 .high "other"
    let poison : Task String := .poison 6
    (∃ moves queue, Queue.Moves moves queue ∧ Queue.taken moves = [high] ∧
      queue.Drains [other, medium, low, poison] ∧
      [other, medium, low, poison] = schedule [other, poison, medium, low]) ∧
    ∃ trace site events after, Site.Run 1 trace site ∧ site.pool.workers = [.busy gate] ∧
      Site.Serves site events after ∧ begun events = [high, other, medium, low] ∧
      [high, other, medium, low] = jobSchedule [low, high, medium, other, poison] := by
  intro gate low high medium other poison
  obtain ⟨_, _, _, queues, _, pools⟩ := served_in_one_order (α := String)
  constructor
  · have taken : Queue.Moves [.taken high, .pushed high, .pushed low] _ :=
      Queue.Moves.start.push.push.take rfl
    have filled : Queue.Moves (.pushed other :: .pushed poison :: .pushed medium :: _) _ :=
      taken.push.push.push
    have remaining : ([other, poison, medium] ++ high :: [low]).Perm _ := List.perm_middle
    have served := queues _ _ [other, poison, medium, low] filled (by decide) remaining
    have planned := (served.drains [other, medium, low, poison]).mp
      (.take rfl (.take rfl (.take rfl (.take rfl (.done rfl)))))
    exact ⟨_, _, filled, rfl, (served.drains _).mpr planned, planned⟩
  · let site : Site String :=
      { pool :=
          { Pool.new 1 with
            queue := Queue.empty.pushAll [low, high, medium, other, poison]
            workers := [.busy gate]
            fresh := 7 }
        offered := [] }
    have held : Site.Run 1 [.taken 0 gate, .submitted gate true] _ :=
      (Site.Run.start.step (Site.step_submit rfl)).step (.take rfl rfl)
    have queued : Site.Run 1 (.submitted poison true :: .submitted other true ::
        .submitted medium true :: .submitted high true :: .submitted low true :: _) site :=
      ((((held.step (Site.step_submit rfl)).step (Site.step_submit rfl)).step
        (Site.step_submit rfl)).step (Site.step_submit rfl)).step (Site.step_submitPoison rfl)
    have inOrder := pools _ _ gate [low, high, medium, other, poison] queued rfl
      (Queue.empty.pushAll_perm [low, high, medium, other, poison])
    have serves : Site.Serves site [.ended 0 gate, .taken 0 high, .ended 0 high, .taken 0 other,
        .ended 0 other, .taken 0 medium, .ended 0 medium, .taken 0 low, .ended 0 low,
        .taken 0 poison] _ :=
      .finish (.finish rfl rfl) (.take (.take rfl rfl) (.finish (.finish rfl rfl)
        (.take (.take rfl rfl) (.finish (.finish rfl rfl) (.take (.take rfl rfl)
          (.finish (.finish rfl rfl) (.take (.take rfl rfl) (.finish (.finish rfl rfl)
            (.take (.take rfl rfl) .rest)))))))))
    have begins := inOrder.complete _ _ serves (@Site.atRest_of_single _ _ .gone rfl nofun rfl)
    exact ⟨_, site, _, _, queued, rfl, serves, rfl, begins⟩

end Tripwire
