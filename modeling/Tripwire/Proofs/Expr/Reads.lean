import Tripwire.Context
import Tripwire.Proofs.Expr.Applications

/-!
An evaluation depends on the names it reads and on no others.

`evaluateWith_congr` compares two scopes of one mode and one rule set: where
they agree on every name that the first evaluation reads, the second one takes
the same course, reads included.  `local_evaluations` says what that means for
contexts and their logs of reads.
-/

namespace Tripwire

namespace Application

variable {resolver : Resolver} {scope other : Scope}

theorem result_congr (rules : other.rules = scope.rules) (mode : other.mode = scope.mode)
    (application : Application) :
    application.result resolver other = application.result resolver scope := by
  cases application with
  | unary op operand => simp only [result, rules, mode]
  | binary op left right => simp only [result, rules, mode]

end Application

namespace Expr

variable {settle : Evaluation → Evaluation} {resolver : Resolver} {scope other : Scope}

theorem evaluateWith_congr (keeps : ∀ evaluation, (settle evaluation).reads = evaluation.reads)
    (rules : other.rules = scope.rules) (mode : other.mode = scope.mode) (e : Expr)
    (same : ∀ name ∈ (e.evaluateWith settle resolver scope).reads,
      other.value name = scope.value name) :
    e.evaluateWith settle resolver other = e.evaluateWith settle resolver scope :=
  evaluateWith_of_results keeps e same fun application _ => application.result_congr rules mode

/-- Containing evaluation in two scopes that agree on what it reads. -/
theorem contained_congr (rules : other.rules = scope.rules) (mode : other.mode = scope.mode)
    (e : Expr)
    (same : ∀ name ∈ (e.contained resolver scope).reads, other.value name = scope.value name) :
    e.contained resolver other = e.contained resolver scope :=
  evaluateWith_congr Evaluation.reads_contain rules mode e same

/-! ### The names of a tree -/

theorem mem_addNames (seen names : List String) (name : String) :
    name ∈ names.foldl addName seen ↔ name ∈ seen ∨ name ∈ names := by
  induction names generalizing seen with
  | nil => simp
  | cons first rest ih =>
    have step : name ∈ addName seen first ↔ name ∈ seen ∨ name = first := by
      simp only [addName]
      split
      next known =>
        constructor
        · exact .inl
        · rintro (member | rfl)
          · exact member
          · exact known
      next => simp
    rw [List.foldl_cons, ih, step, List.mem_cons, or_assoc]

theorem mem_distinctNames (e : Expr) (name : String) : name ∈ e.distinctNames ↔ name ∈ e.names := by
  simp [distinctNames, mem_addNames]

/-- An evaluation reads no name that is not in the tree. -/
theorem mem_names_of_reads (keeps : ∀ evaluation, (settle evaluation).reads = evaluation.reads)
    {e : Expr} {name : String} (read : name ∈ (e.evaluateWith settle resolver scope).reads) :
    name ∈ e.names := by
  induction e with
  | literal value kind => cases read
  | var => exact read
  | unary op operand ih =>
    simp only [evaluateWith, keeps] at read
    rcases Evaluation.mem_reads_andThen.mp read with inner | ⟨value, _, result⟩
    · exact ih inner
    · cases result
  | binary op left right ihLeft ihRight =>
    simp only [evaluateWith, keeps] at read
    apply List.mem_append.mpr
    rcases Evaluation.mem_reads_andThen.mp read with first | ⟨value, _, later⟩
    · exact .inl (ihLeft first)
    · rw [combine_eq] at later
      split at later
      · cases later
      · rcases Evaluation.mem_reads_andThen.mp later with second | ⟨operand, _, result⟩
        · exact .inr (ihRight second)
        · cases result

end Expr

/-! ### Contexts -/

namespace Context

theorem contains_recordAll (context : Context) (names : List String) (name : String) :
    (context.recordAll names).reads.contains name =
      (context.reads.contains name || decide (name ∈ names)) :=
  NameSet.contains_addAll context.reads names name

theorem contains_recordAll_of_empty {context : Context} (empty : context.reads = NameMap.empty)
    (names : List String) (name : String) :
    (context.recordAll names).reads.contains name = decide (name ∈ names) := by
  rw [contains_recordAll, empty]
  exact Bool.false_or _

/-- Runs in a context see and change nothing of it but what they record. -/
structure Local {α : Type} (names : List String) (run : Context → α × Context) : Prop where
  /-- A context that has the same value for every name that a run in another one records gives
  the same outcome and the same record. -/
  agrees : ∀ first second : Context, second.mode = first.mode → second.rules = first.rules →
    first.reads = NameMap.empty → second.reads = NameMap.empty →
    (∀ name, (run first).2.reads.contains name = true → second.value name = first.value name) →
    (run second).1 = (run first).1 ∧ (run second).2.reads = (run first).2.reads
  /-- Nothing of a context changes but its log of reads. -/
  frame : ∀ context : Context, (run context).2.clearReads = context.clearReads
  /-- What a run records joins the names that were read before. -/
  joins : ∀ (context : Context) (name : String), (run context).2.reads.contains name =
    (context.reads.contains name || (run context.clearReads).2.reads.contains name)
  bounded : ∀ (context : Context) (name : String),
    (run context.clearReads).2.reads.contains name = true → name ∈ names

theorem local_of_evaluateWith {α : Type} {settle : Evaluation → Evaluation}
    (keeps : ∀ evaluation, (settle evaluation).reads = evaluation.reads) (resolver : Resolver)
    (e : Expr) (finish : Attempt CoercionError Value → α) :
    Local e.distinctNames fun context =>
      (finish (e.evaluateWith settle resolver context.scope).outcome,
        context.recordAll (e.evaluateWith settle resolver context.scope).reads) where
  agrees := by
    intro first second mode rules emptyFirst emptySecond same
    have equal : e.evaluateWith settle resolver second.scope =
        e.evaluateWith settle resolver first.scope := by
      apply Expr.evaluateWith_congr keeps rules mode
      intro name member
      apply same
      rw [contains_recordAll_of_empty emptyFirst]
      exact decide_eq_true member
    simp only [equal, recordAll, emptyFirst, emptySecond, and_self]
  frame _ := rfl
  joins := by
    intro context name
    rw [contains_recordAll, contains_recordAll_of_empty rfl]
    rfl
  bounded := by
    intro context name recorded
    rw [contains_recordAll_of_empty rfl, decide_eq_true_eq] at recorded
    exact (e.mem_distinctNames name).mpr (Expr.mem_names_of_reads keeps recorded)

/-- What a containing evaluation makes of the outcome of a tree. -/
def atRoot : Attempt CoercionError Value → Except Crash Value
  | .ok value => .ok value
  | .error (.error _) => .ok (.boolean false)
  | .error (.crash crash) => .error crash

/-- Evaluation depends only on what it reads, whether failing operators count as false or end
it. -/
theorem local_evaluations (resolver : Resolver) (e : Expr) :
    Local e.distinctNames (fun context => context.evaluate resolver e) ∧
      Local e.distinctNames (fun context => context.tryEvaluate resolver e) := by
  constructor
  · exact local_of_evaluateWith Evaluation.reads_contain resolver e atRoot
  · exact local_of_evaluateWith (fun _ => rfl) resolver e (Attempt.mapError EvalError.coercion)

/-- A name that a logical operator passes over counts for nothing. -/
theorem local_evaluations_of_short_circuit :
    let e := Expr.binary .or (.named "a") (.named "b")
    let second := (Context.new .strict).set "a" (.integer 1)
    let first := second.set "b" (.integer 2)
    (first.evaluate .standard e).2.reads.names = ["a"] ∧
      (second.evaluate .standard e).1 = (first.evaluate .standard e).1 ∧
      (second.evaluate .standard e).2.reads = (first.evaluate .standard e).2.reads := by
  intro e second first
  refine ⟨rfl, (local_evaluations .standard e).1.agrees first second rfl rfl rfl rfl ?_⟩
  intro name recorded
  have unread : first.reads = NameMap.empty := rfl
  have read : name ∈ ["a"] :=
    of_decide_eq_true ((contains_recordAll_of_empty unread ["a"] name).symm.trans recorded)
  rw [List.mem_singleton.mp read]
  rfl

end Context
end Tripwire
