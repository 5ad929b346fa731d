import Tripwire.Cache.Frozen
import Tripwire.Proofs.Expr.Reads
import Tripwire.Proofs.NameMap

/-!
What the check of a frozen result establishes.

A strict result is up to date exactly under the frozen variables, a loose one
exactly where every frozen name has its frozen value.  Either way a result that
was captured after an evaluation holds in every context that its check accepts
(`holds_capture`).
-/

namespace Tripwire.Frozen

variable {resolver : Resolver}

theorem isOutdated_strict_iff (value : Value) (dependencies live : NameMap Value) :
    (Frozen.mk value dependencies .strict).isOutdated live = false ↔ live = dependencies := by
  constructor
  · intro fresh
    simp only [isOutdated, Bool.or_eq_false_iff, decide_eq_false_iff_not, Decidable.not_not,
      List.any_eq_false] at fresh
    refine NameMap.eq_of_size_eq fresh.1 fun entry member => ?_
    have checked := fresh.2 entry member
    cases found : live.get? entry.1 with
    | none => simp [found] at checked
    | some current =>
      simp only [found, Bool.not_eq_true', Bool.not_eq_false] at checked
      rw [Value.unchanged_iff.mp checked]
  · rintro rfl
    simp only [isOutdated, Bool.or_eq_false_iff, decide_eq_false_iff_not, Decidable.not_not,
      List.any_eq_false, true_and]
    intro entry member
    rw [(live.mem_entries_iff entry).mp member]
    simp [Value.unchanged_iff]

theorem isOutdated_loose_iff (value : Value) (dependencies live : NameMap Value) :
    (Frozen.mk value dependencies .loose).isOutdated live = false ↔
      ∀ name frozen, dependencies.get? name = some frozen →
        (live.get? name).getD .null = frozen := by
  simp only [isOutdated, List.any_eq_false, Bool.not_eq_true', Bool.not_eq_false,
    Value.unchanged_iff]
  constructor
  · intro same name frozen found
    exact same (name, frozen) ((dependencies.mem_entries_iff (name, frozen)).mpr found)
  · intro same entry member
    exact same entry.1 entry.2 ((dependencies.mem_entries_iff entry).mp member)

/-- A frozen result is what the expression comes to wherever its check succeeds. -/
def Holds (resolver : Resolver) (rules : Rules) (mode : Mode) (e : Expr) (frozen : Frozen) :
    Prop :=
  ∀ context : Context, context.rules = rules → context.mode = mode →
    frozen.isOutdated context.bindings = false →
    (context.evaluate resolver e).1 = .ok frozen.value

theorem evaluate_congr {context other : Context} (e : Expr)
    (same : e.contained resolver other.scope = e.contained resolver context.scope) :
    (other.evaluate resolver e).1 = (context.evaluate resolver e).1 := by
  simp only [Context.evaluate, same]

theorem get?_dependencies_eq (context : Context) (name : String) :
    context.dependencies.get? name = (context.reads.get? name).map fun _ => context.value name :=
  NameMap.get?_mapValues ..

/-- The dependencies of a context hold the value of every name that it recorded. -/
theorem get?_dependencies (context : Context) {names : List String} {name : String}
    (member : name ∈ names) :
    (context.recordAll names).dependencies.get? name = some (context.value name) := by
  have recorded : (context.reads.addAll names).contains name = true := by
    rw [NameSet.contains_addAll]
    simp [member]
  obtain ⟨mark, found⟩ := Option.isSome_iff_exists.mp recorded
  have reads : (context.recordAll names).reads = context.reads.addAll names := rfl
  rw [get?_dependencies_eq, reads, found]
  rfl

theorem holds_capture {context after : Context} {e : Expr} {value : Value}
    (evaluated : context.evaluate resolver e = (.ok value, after)) :
    (capture value after).Holds resolver context.rules context.mode e := by
  intro other rules mode fresh
  have outcome : (context.evaluate resolver e).1 = .ok value := congrArg Prod.fst evaluated
  have recorded : context.recordAll (e.contained resolver context.scope).reads = after :=
    congrArg Prod.snd evaluated
  subst recorded
  refine Eq.trans ?_ outcome
  apply evaluate_congr
  cases frozenMode : context.mode with
  | strict =>
    have bindings : other.bindings = context.bindings := by
      simpa [capture, Context.recordAll, frozenMode, isOutdated_strict_iff] using fresh
    rw [Context.scope, Context.scope, bindings, rules, mode]
  | loose =>
    simp only [capture, Context.recordAll, frozenMode, isOutdated_loose_iff] at fresh
    have sameRules : other.scope.rules = context.scope.rules := rules
    refine Expr.contained_congr sameRules mode e fun name member => ?_
    exact fresh name _ (get?_dependencies context member)

end Tripwire.Frozen
