import Mathlib.Data.List.Perm.Basic
import Tripwire.Work.Queue

/-!
Queues hold exactly what was put in, sorted by the order of tasks.
-/

namespace Tripwire

universe u

variable {α : Type u}

namespace Task

theorem order_eq_gt_iff {left right : Task α} :
    left.order right = .gt ↔
      right.band < left.band ∨ right.band = left.band ∧ left.id < right.id := by
  rw [order, Ordering.then_eq_gt, Nat.compare_eq_gt, Nat.compare_eq_gt, Nat.compare_eq_eq]
  exact or_congr Iff.rfl (and_congr eq_comm Iff.rfl)

/-- The first of two tasks is served no later than the other. -/
def Precedes (first later : Task α) : Prop := later.order first ≠ .gt

theorem precedes_iff {first later : Task α} :
    first.Precedes later ↔
      later.band < first.band ∨ later.band = first.band ∧ first.id ≤ later.id := by
  rw [Precedes, ne_eq, order_eq_gt_iff]
  omega

theorem Precedes.trans {first second third : Task α} (one : first.Precedes second)
    (other : second.Precedes third) : first.Precedes third := by
  rw [precedes_iff] at *
  omega

theorem precedes_of_gt {first later : Task α} (greater : first.order later = .gt) :
    first.Precedes later := by
  rw [precedes_iff]
  rw [order_eq_gt_iff] at greater
  omega

theorem band_eq_zero_iff {task : Task α} : task.band = 0 ↔ task.isPoison = true := by
  rw [band]
  split
  next poison => exact iff_of_true rfl poison
  next job =>
    refine iff_of_false ?_ job
    cases task.priority <;> exact Nat.succ_ne_zero _

/-- Nothing but poison comes after poison. -/
theorem Precedes.isPoison {first later : Task α} (ordered : first.Precedes later)
    (poison : first.isPoison = true) : later.isPoison = true := by
  rw [← band_eq_zero_iff] at *
  rw [precedes_iff] at ordered
  omega

end Task

namespace Queue

def real (tasks : List (Task α)) : List (Task α) := tasks.filter fun task => !task.isPoison

def poisonCount (tasks : List (Task α)) : Nat := tasks.countP Task.isPoison

theorem jobs_eq (queue : Queue α) : queue.jobs = real queue.tasks := rfl

@[simp] theorem real_nil : real ([] : List (Task α)) = [] := rfl

@[simp] theorem real_append (first second : List (Task α)) :
    real (first ++ second) = real first ++ real second := List.filter_append first second

theorem real_cons_of_poison {task : Task α} {tasks : List (Task α)}
    (poison : task.isPoison = true) : real (task :: tasks) = real tasks := by
  simp [real, poison]

theorem real_cons_of_job {task : Task α} {tasks : List (Task α)}
    (job : task.isPoison = false) : real (task :: tasks) = task :: real tasks := by
  simp [real, job]

theorem real_eq_nil {tasks : List (Task α)} (poison : ∀ task ∈ tasks, task.isPoison = true) :
    real tasks = [] := by
  rw [real, List.filter_eq_nil_iff]
  intro task member
  simp [poison task member]

theorem real_perm {first second : List (Task α)} (same : first.Perm second) :
    (real first).Perm (real second) := same.filter _

theorem poisonCount_append (first second : List (Task α)) :
    poisonCount (first ++ second) = poisonCount first + poisonCount second :=
  List.countP_append

theorem eq_nil_of_real {tasks : List (Task α)} (jobs : real tasks = [])
    (poison : poisonCount tasks = 0) : tasks = [] := by
  cases tasks with
  | nil => rfl
  | cons task rest =>
    cases kind : task.isPoison with
    | true => simp [poisonCount, kind] at poison
    | false => rw [real_cons_of_job kind] at jobs; cases jobs

/-- The tasks of a queue stand in the order in which they are served. -/
def Sorted (queue : Queue α) : Prop := queue.tasks.Pairwise Task.Precedes

theorem place_perm (task : Task α) (tasks : List (Task α)) :
    (place task tasks).Perm (task :: tasks) := by
  induction tasks with
  | nil => exact .refl _
  | cons head rest ih =>
    rw [place]
    split
    · exact .refl _
    · exact (ih.cons head).trans (.swap task head rest)

theorem sorted_place {task : Task α} {tasks : List (Task α)}
    (sorted : tasks.Pairwise Task.Precedes) : (place task tasks).Pairwise Task.Precedes := by
  induction tasks with
  | nil => exact List.pairwise_singleton _ _
  | cons head rest ih =>
    obtain ⟨first, others⟩ := List.pairwise_cons.mp sorted
    rw [place]
    split
    next greater =>
      have ahead := Task.precedes_of_gt greater
      refine List.pairwise_cons.mpr ⟨?_, sorted⟩
      intro other member
      rcases List.mem_cons.mp member with rfl | member
      · exact ahead
      · exact ahead.trans (first other member)
    next notGreater =>
      refine List.pairwise_cons.mpr ⟨?_, ih others⟩
      intro other member
      rcases List.mem_cons.mp ((place_perm task rest).mem_iff.mp member) with rfl | member
      · exact notGreater
      · exact first other member

theorem push_perm (queue : Queue α) (task : Task α) :
    (queue.push task).tasks.Perm (task :: queue.tasks) := place_perm task queue.tasks

theorem jobs_push_perm (queue : Queue α) (task : Task α) :
    (queue.push task).jobs.Perm (real [task] ++ queue.jobs) := by
  have split := real_perm (queue.push_perm task)
  rw [← List.singleton_append, real_append] at split
  exact split

theorem poisonCount_push (queue : Queue α) (task : Task α) :
    poisonCount (queue.push task).tasks = poisonCount [task] + poisonCount queue.tasks := by
  rw [← poisonCount_append]
  exact (queue.push_perm task).countP_eq _

theorem Sorted.push {queue : Queue α} (sorted : queue.Sorted) (task : Task α) :
    (queue.push task).Sorted := sorted_place sorted

theorem pushAll_perm (queue : Queue α) (tasks : List (Task α)) :
    (queue.pushAll tasks).tasks.Perm (tasks ++ queue.tasks) := by
  induction tasks generalizing queue with
  | nil => exact .refl _
  | cons task rest ih =>
    have step : (queue.pushAll (task :: rest)).tasks.Perm (rest ++ task :: queue.tasks) :=
      (ih (queue.push task)).trans ((queue.push_perm task).append_left rest)
    exact step.trans List.perm_middle

theorem jobs_pushAll_of_poison (queue : Queue α) {tasks : List (Task α)}
    (poison : ∀ task ∈ tasks, task.isPoison = true) :
    (queue.pushAll tasks).jobs.Perm queue.jobs := by
  have split := real_perm (queue.pushAll_perm tasks)
  rw [real_append, real_eq_nil poison] at split
  exact split

theorem poisonCount_pushAll (queue : Queue α) (tasks : List (Task α)) :
    poisonCount (queue.pushAll tasks).tasks = poisonCount tasks + poisonCount queue.tasks := by
  rw [← poisonCount_append]
  exact (queue.pushAll_perm tasks).countP_eq _

theorem Sorted.pushAll {queue : Queue α} (sorted : queue.Sorted) (tasks : List (Task α)) :
    (queue.pushAll tasks).Sorted := by
  induction tasks generalizing queue with
  | nil => exact sorted
  | cons task rest ih => exact ih (sorted.push task)

theorem tasks_of_pop? {queue rest : Queue α} {task : Task α}
    (popped : queue.pop? = some (task, rest)) : queue.tasks = task :: rest.tasks := by
  obtain ⟨tasks⟩ := queue
  cases tasks with
  | nil => cases popped
  | cons head tail => cases popped; rfl

theorem poisonCount_of_pop? {queue rest : Queue α} {task : Task α}
    (popped : queue.pop? = some (task, rest)) :
    poisonCount queue.tasks = poisonCount rest.tasks + task.isPoison.toNat := by
  rw [tasks_of_pop? popped, poisonCount, List.countP_cons]
  cases task.isPoison <;> rfl

theorem Sorted.of_pop? {queue rest : Queue α} {task : Task α} (sorted : queue.Sorted)
    (popped : queue.pop? = some (task, rest)) : rest.Sorted := by
  rw [Sorted, tasks_of_pop? popped] at sorted
  exact (List.pairwise_cons.mp sorted).2

/-- What is taken from a queue is the greatest task of it. -/
theorem Sorted.precedes_of_pop? {queue rest : Queue α} {task : Task α} (sorted : queue.Sorted)
    (popped : queue.pop? = some (task, rest)) : ∀ other ∈ rest.tasks, task.Precedes other := by
  rw [Sorted, tasks_of_pop? popped] at sorted
  exact (List.pairwise_cons.mp sorted).1

/-- Poison is taken only when no job waits. -/
theorem Sorted.jobs_eq_nil {queue rest : Queue α} {task : Task α} (sorted : queue.Sorted)
    (popped : queue.pop? = some (task, rest)) (poison : task.isPoison = true) :
    queue.jobs = [] := by
  rw [jobs_eq, tasks_of_pop? popped, real_cons_of_poison poison]
  apply real_eq_nil
  intro other member
  exact (sorted.precedes_of_pop? popped other member).isPoison poison

end Queue
end Tripwire
