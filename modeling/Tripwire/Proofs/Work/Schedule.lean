import Mathlib.Data.List.Nodup
import Tripwire.Proofs.Work.Queue

/-!
Every queue drains in the same order.

Tasks that are told apart by their identities are totally ordered, so a collection
of them can be sorted in one way only.  `schedule` is this way, spelled out by
priority and age; a queue that is pushed to and taken from in any order drains by
the schedule of what is left in it (`Queue.Moves.served`).
-/

namespace Tripwire

universe u

variable {α : Type u}

namespace Task

instance : Std.TransCmp (@order α) :=
  inferInstanceAs
    (Std.TransCmp (compareLex (compareOn band) fun left right => compareOn Task.id right left))

theorem order_eq_eq_iff {left right : Task α} :
    left.order right = .eq ↔ left.band = right.band ∧ left.id = right.id := by
  rw [order, Ordering.then_eq_eq, Nat.compare_eq_eq, Nat.compare_eq_eq]
  exact and_congr_right fun _ => eq_comm

theorem Precedes.antisymm {first later : Task α} (one : first.Precedes later)
    (other : later.Precedes first) : first.id = later.id := by
  rw [precedes_iff] at *
  omega

/-- Tasks that are told apart by their identities. -/
def Distinct (tasks : List (Task α)) : Prop := (tasks.map Task.id).Nodup

instance (tasks : List (Task α)) : Decidable (Distinct tasks) :=
  inferInstanceAs (Decidable (tasks.map Task.id).Nodup)

theorem Distinct.eq_of_id {tasks : List (Task α)} (distinct : Distinct tasks) {task other : Task α}
    (member : task ∈ tasks) (memberOther : other ∈ tasks) (same : task.id = other.id) :
    task = other := List.inj_on_of_nodup_map distinct member memberOther same

theorem Distinct.of_perm {tasks others : List (Task α)} (distinct : Distinct tasks)
    (same : tasks.Perm others) : Distinct others := (same.map Task.id).nodup_iff.mp distinct

/-- There is only one order in which each of distinct tasks precedes those behind it. -/
theorem Distinct.eq_of_perm {tasks others : List (Task α)} (distinct : Distinct tasks)
    (same : tasks.Perm others) (sorted : tasks.Pairwise Precedes)
    (sortedOthers : others.Pairwise Precedes) : tasks = others :=
  same.eq_of_pairwise
    (fun _ _ member memberOther one other =>
      distinct.eq_of_id member (same.mem_iff.mpr memberOther) (one.antisymm other))
    sorted sortedOthers

theorem band_of_job {task : Task α} (job : task.isPoison = false) :
    task.band = task.priority.level := by
  rw [band, job, if_neg Bool.false_ne_true]

theorem band_of_poison {task : Task α} (poison : task.isPoison = true) : task.band = 0 :=
  band_eq_zero_iff.mpr poison

/-- A task is to be served before all others that are queued. -/
structure Foremost (task : Task α) (queued : List (Task α)) : Prop where
  member : task ∈ queued
  /-- Poison is served only when no job is queued. -/
  poison : task.isPoison = true → ∀ other ∈ queued, other.isPoison = true
  priority : ∀ other ∈ queued, other.isPoison = false → other.priority.level ≤ task.priority.level
  /-- Among equals the oldest is served first. -/
  oldest : ∀ other ∈ queued, other.isPoison = task.isPoison →
    (task.isPoison = false → other.priority = task.priority) → other ≠ task → task.id < other.id

theorem Foremost.of_precedes {task : Task α} {queued : List (Task α)} (distinct : Distinct queued)
    (member : task ∈ queued) (first : ∀ other ∈ queued, task.Precedes other) :
    task.Foremost queued where
  member := member
  poison poison other memberOther := (first other memberOther).isPoison poison
  priority other memberOther job := by
    have ahead := precedes_iff.mp (first other memberOther)
    cases kind : task.isPoison with
    | true =>
      have poison := (first other memberOther).isPoison kind
      rw [job] at poison
      cases poison
    | false =>
      rw [band_of_job kind, band_of_job job] at ahead
      omega
  oldest other memberOther kind priority apart := by
    have ahead := precedes_iff.mp (first other memberOther)
    have older : task.id ≠ other.id := fun same =>
      apart (distinct.eq_of_id memberOther member same.symm)
    have band : other.band = task.band := by
      cases poison : task.isPoison with
      | true => rw [band_of_poison poison, band_of_poison (kind.trans poison)]
      | false => rw [band_of_job poison, band_of_job (kind.trans poison), priority poison]
    omega

end Task

/-! ### The schedule of a collection -/

def byAge (tasks : List (Task α)) : List (Task α) :=
  tasks.mergeSort fun older newer => older.id ≤ newer.id

def jobsOf (priority : Priority) (tasks : List (Task α)) : List (Task α) :=
  tasks.filter fun task => !task.isPoison && decide (task.priority = priority)

/-- The jobs of a collection by priority, and those of one priority by age. -/
def jobSchedule (tasks : List (Task α)) : List (Task α) :=
  [Priority.high, .medium, .low].flatMap fun priority => byAge (jobsOf priority tasks)

/-- The order in which a collection of tasks is served. -/
def schedule (tasks : List (Task α)) : List (Task α) :=
  jobSchedule tasks ++ byAge (tasks.filter Task.isPoison)

theorem byAge_perm (tasks : List (Task α)) : (byAge tasks).Perm tasks := List.mergeSort_perm _ _

theorem pairwise_byAge (tasks : List (Task α)) :
    (byAge tasks).Pairwise fun older newer => older.id ≤ newer.id := by
  have sorted : (byAge tasks).Pairwise fun older newer => decide (older.id ≤ newer.id) = true := by
    refine List.pairwise_mergeSort (fun first second third one other => ?_)
      (fun first second => ?_) tasks
    · rw [decide_eq_true_eq] at *
      exact Nat.le_trans one other
    · rw [Bool.or_eq_true, decide_eq_true_eq, decide_eq_true_eq]
      exact Nat.le_total _ _
  exact sorted.imp of_decide_eq_true

/-- Tasks of one band, by age. -/
theorem precedes_byAge {tasks : List (Task α)} {band : Nat}
    (equals : ∀ task ∈ tasks, task.band = band) : (byAge tasks).Pairwise Task.Precedes := by
  refine (pairwise_byAge tasks).imp_of_mem fun {older newer} memberOlder memberNewer aged => ?_
  have first := equals older ((byAge_perm tasks).mem_iff.mp memberOlder)
  have second := equals newer ((byAge_perm tasks).mem_iff.mp memberNewer)
  exact Task.precedes_iff.mpr (.inr ⟨second.trans first.symm, aged⟩)

theorem mem_jobsOf {priority : Priority} {tasks : List (Task α)} {task : Task α} :
    task ∈ jobsOf priority tasks ↔
      task ∈ tasks ∧ task.isPoison = false ∧ task.priority = priority := by
  simp [jobsOf]

theorem band_of_mem_jobsOf {priority : Priority} {tasks : List (Task α)} {task : Task α}
    (member : task ∈ byAge (jobsOf priority tasks)) : task.band = priority.level := by
  obtain ⟨_, job, same⟩ := mem_jobsOf.mp ((byAge_perm _).mem_iff.mp member)
  rw [Task.band_of_job job, same]

theorem band_of_mem_poisons {tasks : List (Task α)} {task : Task α}
    (member : task ∈ byAge (tasks.filter Task.isPoison)) : task.band = 0 :=
  Task.band_of_poison (List.mem_filter.mp ((byAge_perm _).mem_iff.mp member)).2

theorem jobSchedule_sorted (tasks : List (Task α)) :
    (jobSchedule tasks).Pairwise Task.Precedes := by
  have falling : [Priority.high, .medium, .low].Pairwise fun one other =>
      other.level < one.level := by decide
  refine List.pairwise_flatMap.mpr ⟨fun priority _ => ?_, falling.imp fun lower => ?_⟩
  · exact precedes_byAge fun task member =>
      band_of_mem_jobsOf ((byAge_perm (jobsOf priority tasks)).mem_iff.mpr member)
  · intro task member later memberLater
    rw [← band_of_mem_jobsOf member, ← band_of_mem_jobsOf memberLater] at lower
    exact Task.precedes_iff.mpr (.inl lower)

theorem jobSchedule_perm (tasks : List (Task α)) :
    (jobSchedule tasks).Perm (Queue.real tasks) := by
  have aged : (jobSchedule tasks).Perm
      ([Priority.high, .medium, .low].flatMap fun priority => jobsOf priority tasks) :=
    List.Perm.flatMap_left _ fun priority _ => byAge_perm (jobsOf priority tasks)
  refine aged.trans ?_
  clear aged
  induction tasks with
  | nil => exact .refl _
  | cons task rest ih =>
    have split (priority : Priority) : jobsOf priority (task :: rest) =
        if task.isPoison = false ∧ task.priority = priority then task :: jobsOf priority rest
        else jobsOf priority rest := by
      simp [jobsOf, List.filter_cons]
    simp only [split, List.flatMap_cons, List.flatMap_nil, List.append_nil] at ih ⊢
    cases kind : task.isPoison with
    | true =>
      rw [Queue.real_cons_of_poison kind]
      exact ih
    | false =>
      rw [Queue.real_cons_of_job kind]
      refine .trans ?_ (ih.cons task)
      cases task.priority with
      | high => exact .refl _
      | medium => exact List.perm_middle
      | low => exact (List.perm_middle.append_left _).trans List.perm_middle

theorem schedule_perm (tasks : List (Task α)) : (schedule tasks).Perm tasks := by
  have parts := (jobSchedule_perm tasks).append (byAge_perm (tasks.filter Task.isPoison))
  refine parts.trans (List.perm_append_comm.trans ?_)
  exact List.filter_append_perm Task.isPoison tasks

theorem job_of_mem_jobSchedule {tasks : List (Task α)} {task : Task α}
    (member : task ∈ jobSchedule tasks) : task.isPoison = false := by
  have real := (jobSchedule_perm tasks).mem_iff.mp member
  simpa using (List.mem_filter.mp real).2

theorem schedule_sorted (tasks : List (Task α)) : (schedule tasks).Pairwise Task.Precedes := by
  refine List.pairwise_append.mpr ⟨jobSchedule_sorted tasks, ?_, fun task member other last => ?_⟩
  · exact precedes_byAge fun task member => Task.band_of_poison (List.mem_filter.mp member).2
  · have job := job_of_mem_jobSchedule member
    rw [← Bool.not_eq_true, ← Task.band_eq_zero_iff] at job
    have poison := band_of_mem_poisons last
    exact Task.precedes_iff.mpr (.inl (by omega))

theorem real_schedule (tasks : List (Task α)) :
    Queue.real (schedule tasks) = jobSchedule tasks := by
  have jobs : Queue.real (jobSchedule tasks) = jobSchedule tasks := by
    refine List.filter_eq_self.mpr fun task member => ?_
    rw [job_of_mem_jobSchedule member, Bool.not_false]
  have poisons : Queue.real (byAge (tasks.filter Task.isPoison)) = [] :=
    Queue.real_eq_nil fun task member =>
      Task.band_eq_zero_iff.mp (band_of_mem_poisons member)
  rw [schedule, Queue.real_append, jobs, poisons, List.append_nil]

/-- Sorting distinct tasks gives their schedule. -/
theorem eq_schedule {tasks left : List (Task α)} (distinct : Task.Distinct left)
    (same : tasks.Perm left) (sorted : tasks.Pairwise Task.Precedes) : tasks = schedule left :=
  (distinct.of_perm same.symm).eq_of_perm (same.trans (schedule_perm left).symm) sorted
    (schedule_sorted left)

/-! ### Queues -/

namespace Queue

inductive Move (α : Type u)
  | pushed (task : Task α)
  | taken (task : Task α)

/-- What was done with a queue since it was empty, the latest first. -/
inductive Moves : List (Move α) → Queue α → Prop
  | start : Moves [] .empty
  | push {moves : List (Move α)} {queue : Queue α} {task : Task α} :
      Moves moves queue → Moves (.pushed task :: moves) (queue.push task)
  | take {moves : List (Move α)} {queue rest : Queue α} {task : Task α} :
      Moves moves queue → queue.pop? = some (task, rest) → Moves (.taken task :: moves) rest

def pushed (moves : List (Move α)) : List (Task α) :=
  moves.filterMap fun
    | .pushed task => some task
    | .taken _ => none

def taken (moves : List (Move α)) : List (Task α) :=
  moves.filterMap fun
    | .pushed _ => none
    | .taken task => some task

/-- Taking until nothing is left gives these tasks, one after another. -/
inductive Drains : Queue α → List (Task α) → Prop
  | done {queue : Queue α} : queue.pop? = none → Drains queue []
  | take {queue rest : Queue α} {task : Task α} {tasks : List (Task α)} :
      queue.pop? = some (task, rest) → Drains rest tasks → Drains queue (task :: tasks)

variable {queue rest : Queue α} {moves : List (Move α)} {task : Task α} {left : List (Task α)}

theorem pop?_eq_none_iff : queue.pop? = none ↔ queue.tasks = [] := by
  obtain ⟨tasks⟩ := queue
  cases tasks with
  | nil => exact iff_of_true rfl rfl
  | cons head tail => exact iff_of_false nofun nofun

theorem drains_iff {drained : List (Task α)} : queue.Drains drained ↔ drained = queue.tasks := by
  constructor
  · intro drains
    induction drains with
    | done none => exact (pop?_eq_none_iff.mp none).symm
    | take popped _ ih => rw [tasks_of_pop? popped, ih]
  · rintro rfl
    obtain ⟨tasks⟩ := queue
    induction tasks with
    | nil => exact .done rfl
    | cons head tail ih => exact .take rfl ih

/-- What a queue answers when certain tasks are left in it. -/
structure Served (left : List (Task α)) (queue : Queue α) : Prop where
  /-- Something is taken as long as anything is left. -/
  empty : queue.pop? = none ↔ left = []
  foremost : ∀ task rest, queue.pop? = some (task, rest) →
    task.Foremost left ∧ left.Perm (task :: rest.tasks)
  /-- What is taken is the one task than which no other is greater. -/
  greatest : ∀ task rest, queue.pop? = some (task, rest) → ∀ other ∈ left,
    (∀ third ∈ left, third.order other ≠ .gt) ↔ other = task
  drains : ∀ drained, queue.Drains drained ↔ drained = schedule left

theorem Sorted.precedes_all (sorted : queue.Sorted) (same : queue.tasks.Perm left)
    (popped : queue.pop? = some (task, rest)) : ∀ other ∈ left, task.Precedes other := by
  intro other member
  rw [← same.mem_iff, tasks_of_pop? popped] at member
  rcases List.mem_cons.mp member with rfl | behind
  · exact Task.precedes_iff.mpr (.inr ⟨rfl, Nat.le_refl _⟩)
  · exact sorted.precedes_of_pop? popped other behind

theorem Sorted.served (sorted : queue.Sorted) (distinct : Task.Distinct left)
    (same : queue.tasks.Perm left) : queue.Served left where
  empty := by
    rw [pop?_eq_none_iff]
    exact ⟨fun none => (none ▸ same).nil_eq.symm, fun none => (none ▸ same).eq_nil⟩
  foremost := by
    intro task rest popped
    have split := tasks_of_pop? popped ▸ same.symm
    have member := split.mem_iff.mpr List.mem_cons_self
    exact ⟨.of_precedes distinct member (sorted.precedes_all same popped), split⟩
  greatest := by
    intro task rest popped other member
    have first := sorted.precedes_all same popped
    constructor
    · intro greatest
      have queuedTask := same.mem_iff.mp (tasks_of_pop? popped ▸ List.mem_cons_self)
      have ahead : other.Precedes task := greatest task queuedTask
      exact distinct.eq_of_id member queuedTask (ahead.antisymm (first other member))
    · rintro rfl
      exact first
  drains drained := by
    rw [drains_iff, eq_schedule distinct same sorted]

theorem Moves.sorted (moved : Moves moves queue) : queue.Sorted := by
  induction moved with
  | start => exact .nil
  | push _ ih => exact ih.push _
  | take _ popped ih => exact ih.of_pop? popped

/-- What was pushed was taken or is still queued. -/
theorem Moves.conserved (moved : Moves moves queue) :
    (pushed moves).Perm (taken moves ++ queue.tasks) := by
  induction moved with
  | start => exact .refl _
  | @push moves queue task _ ih =>
    refine (ih.cons task).trans (List.perm_middle.symm.trans ?_)
    exact (queue.push_perm task).symm.append_left (taken moves)
  | take _ popped ih =>
    rw [tasks_of_pop? popped] at ih
    exact ih.trans List.perm_middle

/-- Whatever was pushed and taken before, a queue of distinct tasks serves what is left. -/
theorem Moves.served (moved : Moves moves queue) (distinct : Task.Distinct (pushed moves))
    (remaining : (pushed moves).Perm (taken moves ++ left)) : queue.Served left := by
  have same : queue.tasks.Perm left :=
    (List.perm_append_left_iff _).mp (moved.conserved.symm.trans remaining)
  have apart := distinct.of_perm remaining
  rw [Task.Distinct, List.map_append] at apart
  exact moved.sorted.served apart.of_append_right same

/-- Distinct tasks make the same queue in whatever order they are inserted. -/
theorem pushAll_of_perm {first second : List (Task α)} (distinct : Task.Distinct first)
    (same : first.Perm second) : empty.pushAll first = empty.pushAll second := by
  have planned : ∀ inserted : List (Task α), inserted.Perm first →
      (empty.pushAll inserted).tasks = schedule first := by
    intro inserted placed
    have held := empty.pushAll_perm inserted
    rw [show (empty : Queue α).tasks = [] from rfl, List.append_nil] at held
    exact eq_schedule distinct (held.trans placed) (Sorted.pushAll .nil inserted)
  exact congrArg Queue.mk ((planned first (.refl _)).trans (planned second same.symm).symm)

end Queue
end Tripwire
