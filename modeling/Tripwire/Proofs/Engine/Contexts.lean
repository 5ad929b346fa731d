import Tripwire.Proofs.Engine.Lookup
import Tripwire.Proofs.Engine.Session

/-!
Contexts of a session stay at their places.
-/

namespace Tripwire.Session

/-- At a place there is a context of the mode and the rules of another one. -/
def Stays (contexts : List Context) (place : Nat) (context : Context) : Prop :=
  ∃ later, contexts[place]? = some later ∧ later.mode = context.mode ∧
    later.rulesId = context.rulesId

variable {contexts : List Context} {place : Nat} {context : Context}

theorem stays_append (found : contexts[place]? = some context) (added : List Context) :
    Stays (contexts ++ added) place context := by
  refine ⟨context, ?_, rfl, rfl⟩
  rw [List.getElem?_append_left (List.getElem?_eq_some_iff.mp found).1, found]

theorem stays_modify (found : contexts[place]? = some context) {other : Nat}
    {change : Context → Context}
    (same : other = place → ∀ c, (change c).mode = c.mode ∧ (change c).rulesId = c.rulesId) :
    Stays (contexts.modify other change) place context := by
  unfold Stays
  rw [List.getElem?_modify, found]
  refine ⟨if other = place then change context else context, rfl, ?_⟩
  split
  next here => exact same here context
  next => exact ⟨rfl, rfl⟩

theorem stays_set (found : contexts[place]? = some context) {other : Nat} {changed : Context}
    (same : other = place → changed.clearReads = context.clearReads) :
    Stays (contexts.set other changed) place context := by
  unfold Stays
  by_cases here : other = place
  · rw [here, List.getElem?_set_self (List.getElem?_eq_some_iff.mp found).1]
    exact ⟨changed, rfl, (congrArg Context.mode (same here) :),
      (congrArg Context.rulesId (same here) :)⟩
  · rw [List.getElem?_set_ne here]
    exact ⟨context, found, rfl, rfl⟩

variable {s : Session}

/-- A context keeps its mode, and its rules unless it is given others. -/
theorem stays_step (found : s.contexts[place]? = some context) {operation : Operation}
    (kept : ∀ rules, operation ≠ .adopt place rules) :
    Stays (s.step operation).contexts place context := by
  have unchanged : Stays s.contexts place context := ⟨context, found, rfl, rfl⟩
  cases operation with
  | enter _ | clone _ | thaw _ => exact stays_append found _
  | adopt other rules =>
    apply stays_modify found
    intro same
    exact absurd (same ▸ rfl) (kept rules)
  | set _ _ _ | remove _ _ | get _ _ | clearReads _ | evaluate _ _ | tryEvaluate _ _ =>
    exact stays_modify found fun _ _ => ⟨rfl, rfl⟩
  | evaluateCached expression other label =>
    simp only [step, evaluateCached]
    split
    next compiled asking _ askingAt =>
      apply stays_set found
      intro same
      rw [same, found] at askingAt
      cases askingAt
      exact s.engine.clearReads_evaluateCached compiled context label
    next => exact unchanged
  | _ => exact unchanged

theorem stays_run (found : s.contexts[place]? = some context) {operations : List Operation}
    (kept : ∀ rules, .adopt place rules ∉ operations) :
    Stays (s.run operations).contexts place context := by
  induction operations generalizing s context with
  | nil => exact ⟨context, found, rfl, rfl⟩
  | cons operation rest ih =>
    obtain ⟨next, nextFound, mode, rulesId⟩ := stays_step found fun rules same =>
      kept rules (List.mem_cons.mpr (.inl same.symm))
    obtain ⟨later, laterFound, laterMode, laterRules⟩ :=
      ih nextFound fun rules member => kept rules (List.mem_cons_of_mem _ member)
    exact ⟨later, laterFound, laterMode.trans mode, laterRules.trans rulesId⟩

end Tripwire.Session
