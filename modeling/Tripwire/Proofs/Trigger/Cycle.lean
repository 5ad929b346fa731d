import Mathlib.Data.List.Forall2
import Tripwire.Dispatcher
import Tripwire.Proofs.Log.Journal
import Tripwire.Proofs.Work.Queue

/-!
What a cycle of a dispatcher does, whatever its triggers do.

Checks may change the context, fail or crash; the next check starts from what
they left (`Checks`).  A cycle over some triggers writes one entry for each check
and queues one task for each success that the pool accepts.  `Cycle` says so of
any row of triggers, and cycles over two rows join to one over both
(`Cycle.append`), so that a single trigger is all there is to look at.
-/

namespace Tripwire

universe u

variable {ν : Type u}

/-- A check that was made: what it came to, and the context right after it. -/
structure Checked (ν : Type u) where
  trigger : Trigger ν
  outcome : Attempt TriggerError Bool
  context : Context

namespace Checked

/-- An error or a crash is no success. -/
def success (checked : Checked ν) : Bool :=
  match checked.outcome with
  | .ok answer => answer
  | .error _ => false

def entry (checked : Checked ν) : Entry where
  source := "EventDispatcher"
  trigger := checked.trigger.name
  success := checked.success
  elapsed := 0
  level := if checked.success then .info else .debug
  context := checked.context.bindings

/-- A task is for the side effect of a trigger, with the variables that its check left. -/
structure Causes (checked : Checked ν) (task : Task (Job ν)) : Prop where
  priority : task.priority = .medium
  executed : task.executed = false
  job : ∃ snapshot : Snapshot, task.job = some (.execution checked.trigger snapshot) ∧
    snapshot = checked.context.snapshot ∧ snapshot.bindings = checked.entry.context

theorem causes_new (checked : Checked ν) (id : Nat) :
    checked.Causes (.new id .medium (.execution checked.trigger checked.context.snapshot)) :=
  ⟨rfl, rfl, checked.context.snapshot, rfl, rfl, rfl⟩

end Checked

/-- Checks of triggers in order, each on the engines and the context that the one before left. -/
inductive Checks : Engines → Context → List (Trigger ν) → List (Checked ν) → Engines → Context → Prop
  | done {engines : Engines} {context : Context} : Checks engines context [] [] engines context
  | check {engines next last : Engines} {context after final : Context} {trigger : Trigger ν}
      {outcome : Attempt TriggerError Bool} {rest : List (Trigger ν)} {others : List (Checked ν)} :
      trigger.check engines context = (outcome, next, after) →
      Checks next after rest others last final →
      Checks engines context (trigger :: rest) (⟨trigger, outcome, after⟩ :: others) last final

namespace Checks

variable {engines next last : Engines} {context after final : Context}
  {triggers more : List (Trigger ν)} {checks others : List (Checked ν)}

theorem triggers_eq (made : Checks engines context triggers checks last final) :
    checks.map Checked.trigger = triggers := by
  induction made with
  | done => rfl
  | check _ _ ih => rw [List.map_cons, ih]

theorem length_eq (made : Checks engines context triggers checks last final) :
    checks.length = triggers.length := by
  rw [← made.triggers_eq, List.length_map]

theorem append (first : Checks engines context triggers checks next after)
    (second : Checks next after more others last final) :
    Checks engines context (triggers ++ more) (checks ++ others) last final := by
  induction first with
  | done => exact second
  | check checked _ ih => exact .check checked (ih second)

end Checks

namespace Queue

theorem pushAll_append {α : Type u} (queue : Queue α) (first second : List (Task α)) :
    queue.pushAll (first ++ second) = (queue.pushAll first).pushAll second :=
  List.foldl_append

end Queue

theorem Pool.submit_eq {α : Type u} (pool : Pool α) (priority : Priority) (job : α) :
    pool.submit priority job =
      (pool.running,
        { pool with
          queue := pool.queue.pushAll (if pool.running then [.new pool.fresh priority job] else [])
          fresh := pool.fresh + 1 }) := by
  simp only [submit, enqueue]
  split
  next running => rw [running]; rfl
  next stopped => rw [Bool.eq_false_iff.mpr stopped]; rfl

/-- The side effects of some successes were submitted to a pool, and these tasks were queued. -/
structure Queued (pool : Pool (Job ν)) (successes : List (Checked ν)) (tasks : List (Task (Job ν)))
    (after : Pool (Job ν)) : Prop where
  /-- Nothing happens to the pool but that tasks join the queue and identities are drawn. -/
  frame : after = { pool with queue := pool.queue.pushAll tasks, fresh := after.fresh }
  /-- A pool that takes work gets one task for each success, in order. -/
  accepted : pool.running = true → List.Forall₂ Checked.Causes successes tasks
  refused : pool.running = false → tasks = []
  fresh : pool.fresh ≤ after.fresh
  drawn : ∀ task ∈ tasks, pool.fresh ≤ task.id ∧ task.id < after.fresh
  /-- Later tasks have greater identities. -/
  increasing : tasks.Pairwise fun task later => task.id < later.id

namespace Queued

variable {pool middle after : Pool (Job ν)} {successes others : List (Checked ν)}
  {tasks further : List (Task (Job ν))}

theorem refl (pool : Pool (Job ν)) : Queued pool [] [] pool where
  frame := rfl
  accepted _ := .nil
  refused _ := rfl
  fresh := Nat.le_refl _
  drawn := nofun
  increasing := .nil

theorem running (queued : Queued pool successes tasks after) : after.running = pool.running := by
  rw [queued.frame]

theorem count (queued : Queued pool successes tasks after) :
    tasks.length = if pool.running then successes.length else 0 := by
  cases running : pool.running with
  | true => exact (queued.accepted running).length_eq.symm
  | false =>
    rw [queued.refused running]
    rfl

theorem append (first : Queued pool successes tasks middle)
    (second : Queued middle others further after) :
    Queued pool (successes ++ others) (tasks ++ further) after where
  frame := by
    rw [second.frame, first.frame, Queue.pushAll_append]
  accepted running := List.rel_append (first.accepted running)
    (second.accepted (first.running.trans running))
  refused stopped := by
    rw [first.refused stopped, second.refused (first.running.trans stopped), List.append_nil]
  fresh := Nat.le_trans first.fresh second.fresh
  drawn := by
    intro task member
    rcases List.mem_append.mp member with early | late
    · obtain ⟨lower, upper⟩ := first.drawn task early
      exact ⟨lower, Nat.lt_of_lt_of_le upper second.fresh⟩
    · obtain ⟨lower, upper⟩ := second.drawn task late
      exact ⟨Nat.le_trans first.fresh lower, upper⟩
  increasing := by
    refine List.pairwise_append.mpr ⟨first.increasing, second.increasing, ?_⟩
    intro task early later late
    exact Nat.lt_of_lt_of_le (first.drawn task early).2 (second.drawn later late).1

theorem submit_running {pool : Pool (Job ν)} (running : pool.running = true)
    (checked : Checked ν) :
    let job := Job.execution checked.trigger checked.context.snapshot
    Queued pool [checked] [.new pool.fresh .medium job] (pool.submit .medium job).2 := by
  intro job
  rw [Pool.submit_eq, running]
  exact {
    frame := by rw [running, if_pos rfl]
    accepted := fun _ => .cons (checked.causes_new pool.fresh) .nil
    refused := fun stopped => absurd (running.symm.trans stopped) nofun
    fresh := Nat.le_succ _
    drawn := by
      intro task member
      rw [List.mem_singleton.mp member]
      exact ⟨Nat.le_refl _, Nat.lt_succ_self _⟩
    increasing := List.pairwise_singleton _ _ }

theorem submit_stopped {pool : Pool (Job ν)} (stopped : pool.running = false)
    (checked : Checked ν) :
    Queued pool [checked] []
      (pool.submit .medium (.execution checked.trigger checked.context.snapshot)).2 := by
  rw [Pool.submit_eq, stopped]
  exact {
    frame := by rw [stopped]; rfl
    accepted := fun running => absurd (stopped.symm.trans running) nofun
    refused := fun _ => rfl
    fresh := Nat.le_succ _
    drawn := nofun
    increasing := .nil }

/-- A check that succeeds is queued by a pool that takes work, and no other check is. -/
theorem single (pool : Pool (Job ν)) (checked : Checked ν) :
    ∃ tasks, Queued pool ([checked].filter Checked.success) tasks
        (if checked.success then
          (pool.submit .medium (.execution checked.trigger checked.context.snapshot)).2
        else pool) ∧
      (checked.success && pool.running).toNat = tasks.length := by
  cases success : checked.success with
  | false =>
    refine ⟨[], ?_, rfl⟩
    rw [List.filter_cons_of_neg (by simp [success])]
    exact .refl pool
  | true =>
    rw [List.filter_cons_of_pos success, if_pos rfl, Bool.true_and]
    cases running : pool.running with
    | true => exact ⟨_, submit_running running checked, rfl⟩
    | false => exact ⟨[], submit_stopped running checked, rfl⟩

end Queued

namespace Dispatcher

variable {dispatcher middle after : Dispatcher ν} {triggers more : List (Trigger ν)}
  {checks others : List (Checked ν)} {tasks further : List (Task (Job ν))}

/-- A row of triggers was checked, the checks were recorded, and tasks were queued. -/
structure Cycle (triggers : List (Trigger ν)) (dispatcher : Dispatcher ν)
    (checks : List (Checked ν)) (tasks : List (Task (Job ν))) (after : Dispatcher ν) : Prop where
  made : Checks dispatcher.engines dispatcher.context triggers checks after.engines after.context
  /-- Every check is recorded once, in order. -/
  journal : after.journal = dispatcher.journal.writeAll (checks.map Checked.entry)
  queued : Queued dispatcher.pool (checks.filter Checked.success) tasks after.pool
  registered : after.triggers = dispatcher.triggers

theorem Cycle.refl (dispatcher : Dispatcher ν) : Cycle [] dispatcher [] [] dispatcher :=
  ⟨.done, rfl, .refl _, rfl⟩

/-- Cycles over two rows of triggers are a cycle over both. -/
theorem Cycle.append (first : Cycle triggers dispatcher checks tasks middle)
    (second : Cycle more middle others further after) :
    Cycle (triggers ++ more) dispatcher (checks ++ others) (tasks ++ further) after where
  made := first.made.append second.made
  journal := by
    rw [second.journal, first.journal, List.map_append, Journal.writeAll_append]
  queued := by
    rw [List.filter_append]
    exact first.queued.append second.queued
  registered := second.registered.trans first.registered

theorem pollOne_eq {outcome : Attempt TriggerError Bool} {engines : Engines} {context : Context}
    {trigger : Trigger ν}
    (checked : trigger.check dispatcher.engines dispatcher.context = (outcome, engines, context)) :
    dispatcher.pollOne trigger =
      (fires outcome && dispatcher.pool.running,
        { dispatcher with
          context := context
          engines := engines
          journal :=
            (dispatcher.journal.write (checkEntry trigger (fires outcome) context.bindings)).2
          pool :=
            if fires outcome then
              (dispatcher.pool.submit .medium (.execution trigger context.snapshot)).2
            else dispatcher.pool }) := by
  simp only [pollOne, checked]
  cases fires outcome with
  | true =>
    simp only [if_true, Bool.true_and]
    rw [Pool.submit_eq]
  | false => rfl

/-- One trigger is a cycle of its own. -/
theorem cycle_pollOne (dispatcher : Dispatcher ν) (trigger : Trigger ν) :
    ∃ checked tasks, Cycle [trigger] dispatcher [checked] tasks (dispatcher.pollOne trigger).2 ∧
      (dispatcher.pollOne trigger).1.toNat = tasks.length := by
  cases made : trigger.check dispatcher.engines dispatcher.context with
  | mk outcome rest =>
    obtain ⟨engines, context⟩ := rest
    let checked : Checked ν := ⟨trigger, outcome, context⟩
    obtain ⟨tasks, queued, count⟩ := Queued.single dispatcher.pool checked
    rw [pollOne_eq made]
    exact ⟨checked, tasks, ⟨.check made .done, rfl, queued, rfl⟩, count⟩

/-- Several triggers are a cycle, however many of them fail. -/
theorem cycle_pollAll (dispatcher : Dispatcher ν) (triggers : List (Trigger ν)) :
    ∃ checks tasks, Cycle triggers dispatcher checks tasks (dispatcher.pollAll triggers).2 ∧
      (dispatcher.pollAll triggers).1 = tasks.length := by
  induction triggers generalizing dispatcher with
  | nil => exact ⟨[], [], .refl dispatcher, rfl⟩
  | cons trigger rest ih =>
    obtain ⟨checked, tasks, first, accepted⟩ := dispatcher.cycle_pollOne trigger
    obtain ⟨checks, further, others, count⟩ := ih (dispatcher.pollOne trigger).2
    refine ⟨checked :: checks, tasks ++ further, first.append others, ?_⟩
    simp only [pollAll, count, accepted, List.length_append]
    exact Nat.add_comm _ _

theorem cycle_poll (dispatcher : Dispatcher ν) :
    ∃ checks tasks, Cycle dispatcher.triggers dispatcher checks tasks dispatcher.poll.2 ∧
      dispatcher.poll.1 = tasks.length :=
  dispatcher.cycle_pollAll dispatcher.triggers

theorem running_shutdown (dispatcher : Dispatcher ν) :
    dispatcher.shutdown.2.pool.running = false := by
  simp only [shutdown, Pool.shutdown, Pool.stop]
  cases running : dispatcher.pool.running with
  | true => rfl
  | false => exact running

/-- What a cycle does.  The triggers are checked in order, each on what the check before left.
Each check is recorded once with its own name, success, level and variables, under a number of its
own, and a bus that is heard sends these records.  A pool that takes work gets one task of medium
priority for each success, with a snapshot of what was recorded, in order and under increasing
identities, and nothing else; the answer is the number of these tasks.  After a shutdown it is
zero. -/
theorem poll_cycle (dispatcher : Dispatcher ν) :
    (∃ checks tasks,
      Cycle dispatcher.triggers dispatcher checks tasks dispatcher.poll.2 ∧
      checks.map Checked.trigger = dispatcher.triggers ∧
      dispatcher.poll.2.journal.next = dispatcher.journal.next + dispatcher.triggers.length ∧
      (∀ bus, dispatcher.journal.bus = some bus → bus.Heard →
        dispatcher.poll.2.journal.bus = some (bus.sentAll
          (Journal.numbered dispatcher.journal.next (checks.map Checked.entry)))) ∧
      dispatcher.poll.2.pool.queue.tasks.Perm (tasks ++ dispatcher.pool.queue.tasks) ∧
      dispatcher.poll.1 = tasks.length ∧
      tasks.length =
        if dispatcher.pool.running then (checks.filter Checked.success).length else 0) ∧
    dispatcher.shutdown.2.pool.running = false ∧ dispatcher.shutdown.2.poll.1 = 0 := by
  constructor
  · obtain ⟨checks, tasks, cycle, count⟩ := dispatcher.cycle_poll
    refine ⟨checks, tasks, cycle, cycle.made.triggers_eq, ?numbers, ?log, ?queue, count,
      cycle.queued.count⟩
    case numbers =>
      rw [cycle.journal, Journal.next_writeAll, List.length_map, cycle.made.length_eq]
    case log =>
      intro bus on heard
      rw [cycle.journal]
      exact Journal.bus_writeAll on heard _
    case queue =>
      rw [cycle.queued.frame]
      exact dispatcher.pool.queue.pushAll_perm tasks
  · have stopped := dispatcher.running_shutdown
    obtain ⟨checks, tasks, cycle, count⟩ := dispatcher.shutdown.2.cycle_poll
    refine ⟨stopped, ?_⟩
    rw [count, cycle.queued.refused stopped]
    rfl

/-- A check that crashes keeps what it set, and the trigger after it sees that. -/
theorem poll_cycle_of_crash :
    let crashes : Trigger Unit :=
      ⟨"a", .custom ⟨fun engines context =>
        (.error (.crash ⟨none⟩), engines, context.set "x" (.boolean true)), fun _ => .none⟩, none⟩
    let looks : Trigger Unit :=
      ⟨"b", .custom ⟨fun engines context =>
        (.ok (context.value "x" = .boolean true), engines, context), fun _ => .none⟩, none⟩
    let bus := (Bus.new 4).subscribe.2
    let dispatcher : Dispatcher Unit :=
      ⟨.new .loose, .empty, [crashes, looks], .new 1, ⟨1, some bus⟩⟩
    bus.Heard ∧ ∃ checks tasks,
      Cycle [crashes, looks] dispatcher checks tasks dispatcher.poll.2 ∧
      dispatcher.poll.2.journal.bus =
        some (bus.sentAll (Journal.numbered 1 (checks.map Checked.entry))) ∧
      tasks.length = 1 := by
  intro crashes looks bus dispatcher
  have heard : bus.Heard := ⟨nofun, nofun, Nat.zero_le _⟩
  obtain ⟨checks, tasks, cycle, _, _, log, _, count, _⟩ := (poll_cycle dispatcher).1
  exact ⟨heard, checks, tasks, cycle, log bus rfl heard, count.symm⟩

end Dispatcher
end Tripwire
