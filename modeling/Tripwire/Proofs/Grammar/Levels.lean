import Tripwire.Grammar.Rule

/-!
How many deferred rules are open at once while a rule runs.  Rules recur through
deferred rules only, so this is how deep the recursion goes.  `run_cut` says that
refusing to go deeper than a run went does not change its outcome.
-/

namespace Tripwire.Rule

variable {ι α β : Type}

/-- The most levels that one of the repeated steps opens, the failing one included. -/
def collectLevels (step : Nat → Outcome α) (levels : Nat → Nat) : (fuel : Nat) → Nat → Nat
  | 0, _ => 0
  | fuel + 1, position =>
    match step position with
    | .error _ => levels position
    | .ok (next, _) =>
      if position < next then max (levels position) (collectLevels step levels fuel next)
      else levels position

/-- How many deferred rules are open at once at most while a rule runs. -/
def levels [DecidableEq ι] [ToString ι] (input : Array ι) : {α : Type} → Rule ι α → Nat → Nat
  | _, equal _, _ => 0
  | _, satisfy _ _, _ => 0
  | _, none, _ => 0
  | _, orElse first second, position =>
    match run input first position with
    | .ok _ => levels input first position
    | .error _ => max (levels input first position) (levels input second position)
  | _, map _ rule, position => levels input rule position
  | _, unit rule, position => levels input rule position
  | _, many rule, position =>
    collectLevels (fun position => run input rule position)
      (fun position => levels input rule position) (input.size + 1) position
  | _, pair first second, position =>
    match run input first position with
    | .error _ => levels input first position
    | .ok (middle, _) => max (levels input first position) (levels input second middle)
  | _, delimited left rule right, position =>
    match run input left position with
    | .error _ => levels input left position
    | .ok (inner, _) =>
      match run input rule inner with
      | .error _ => max (levels input left position) (levels input rule inner)
      | .ok (outer, _) =>
        max (levels input left position) (max (levels input rule inner) (levels input right outer))
  | _, within _ rule, position => levels input rule position
  | _, deferred rule, position => levels input (rule ()) position + 1

/-- The rule without what is deferred below a number of levels. -/
def cut : {α : Type} → Rule ι α → (limit : Nat) → Rule ι α
  | _, equal item, _ => equal item
  | _, satisfy image expected, _ => satisfy image expected
  | _, none, _ => none
  | _, orElse first second, limit => orElse (first.cut limit) (second.cut limit)
  | _, map f rule, limit => map f (rule.cut limit)
  | _, unit rule, limit => unit (rule.cut limit)
  | _, many rule, limit => many (rule.cut limit)
  | _, pair first second, limit => pair (first.cut limit) (second.cut limit)
  | _, delimited left rule right, limit =>
    delimited (left.cut limit) (rule.cut limit) (right.cut limit)
  | _, within context rule, limit => within context (rule.cut limit)
  | _, deferred _, 0 => none
  | _, deferred rule, limit + 1 => deferred fun _ => (rule ()).cut limit

theorem collect_congr {step other : Nat → Outcome α} {levels : Nat → Nat} {limit : Nat}
    (same : ∀ position, levels position ≤ limit → other position = step position) (fuel : Nat) :
    ∀ position, collectLevels step levels fuel position ≤ limit →
      collect other fuel position = collect step fuel position := by
  induction fuel with
  | zero => exact fun _ _ => rfl
  | succ fuel ih =>
    intro position bounded
    simp only [collectLevels] at bounded
    have here : levels position ≤ limit := by
      refine Nat.le_trans ?_ bounded
      split
      · exact Nat.le_refl _
      · split
        · exact Nat.le_max_left _ _
        · exact Nat.le_refl _
    simp only [collect, same position here]
    cases stepped : step position with
    | error mismatch => rfl
    | ok result =>
      obtain ⟨next, value⟩ := result
      simp only [stepped] at bounded ⊢
      split
      next advanced =>
        rw [if_pos advanced] at bounded
        rw [ih next (Nat.le_trans (Nat.le_max_right _ _) bounded)]
      next => rfl

section
variable [DecidableEq ι] [ToString ι] {input : Array ι} {position bound : Nat}

theorem levels_orElse_le {first second : Rule ι α} (one : first.levels input position ≤ bound)
    (other : second.levels input position ≤ bound) :
    (orElse first second).levels input position ≤ bound := by
  simp only [levels]
  split
  · exact one
  · exact Nat.max_le.mpr ⟨one, other⟩

theorem levels_choice_le {rules : List (Rule ι α)}
    (each : ∀ rule ∈ rules, rule.levels input position ≤ bound) :
    (choice rules).levels input position ≤ bound := by
  induction rules with
  | nil => exact Nat.zero_le _
  | cons first rest ih =>
    have one := each first List.mem_cons_self
    have others := ih fun rule member => each rule (List.mem_cons_of_mem _ member)
    exact levels_orElse_le one others

theorem levels_pair_le {first : Rule ι α} {second : Rule ι β}
    (one : first.levels input position ≤ bound)
    (other : ∀ middle value, first.run input position = .ok (middle, value) →
      second.levels input middle ≤ bound) :
    (pair first second).levels input position ≤ bound := by
  simp only [levels]
  split
  · exact one
  next middle value ran => exact Nat.max_le.mpr ⟨one, other middle value ran⟩

theorem levels_delimited_le {left right : Rule ι Unit} {rule : Rule ι α}
    (before : left.levels input position ≤ bound)
    (between : ∀ inner, left.run input position = .ok (inner, ()) →
      rule.levels input inner ≤ bound)
    (behind : ∀ outer, right.levels input outer ≤ bound) :
    (delimited left rule right).levels input position ≤ bound := by
  simp only [levels]
  split
  · exact before
  next inner _ opened =>
    have content := between inner opened
    split
    · exact Nat.max_le.mpr ⟨before, content⟩
    next outer _ _ =>
      exact Nat.max_le.mpr ⟨before, Nat.max_le.mpr ⟨content, behind outer⟩⟩

/-- Cutting a rule below the levels that it opens does not change what it does. -/
theorem run_cut (rule : Rule ι α) :
    ∀ limit position, rule.levels input position ≤ limit →
      (rule.cut limit).run input position = rule.run input position := by
  induction rule with
  | equal item => exact fun _ _ _ => rfl
  | satisfy image expected => exact fun _ _ _ => rfl
  | none => exact fun _ _ _ => rfl
  | orElse first second ihFirst ihSecond =>
    intro limit position bounded
    simp only [levels] at bounded
    cases ran : first.run input position with
    | ok result =>
      simp only [ran] at bounded
      simp only [cut, run, ihFirst limit position bounded, ran]
    | error mismatch =>
      simp only [ran, Nat.max_le] at bounded
      simp only [cut, run, ihFirst limit position bounded.1, ran,
        ihSecond limit position bounded.2]
  | map f rule ih =>
    intro limit position bounded
    simp only [cut, run, ih limit position bounded]
  | unit rule ih =>
    intro limit position bounded
    simp only [cut, run, ih limit position bounded]
  | many rule ih =>
    intro limit position bounded
    simp only [cut, run]
    rw [collect_congr (fun place => ih limit place) _ position bounded]
  | pair first second ihFirst ihSecond =>
    intro limit position bounded
    simp only [levels] at bounded
    cases ran : first.run input position with
    | error mismatch =>
      simp only [ran] at bounded
      simp only [cut, run, ihFirst limit position bounded, ran]
    | ok result =>
      obtain ⟨middle, value⟩ := result
      simp only [ran, Nat.max_le] at bounded
      simp only [cut, run, ihFirst limit position bounded.1, ran, ihSecond limit middle bounded.2]
  | delimited left rule right ihLeft ihRule ihRight =>
    intro limit position bounded
    simp only [levels] at bounded
    cases opened : left.run input position with
    | error mismatch =>
      simp only [opened] at bounded
      simp only [cut, run, ihLeft limit position bounded, opened]
    | ok result =>
      obtain ⟨inner, _⟩ := result
      simp only [opened] at bounded
      cases ran : rule.run input inner with
      | error mismatch =>
        simp only [ran, Nat.max_le] at bounded
        simp only [cut, run, ihLeft limit position bounded.1, opened,
          ihRule limit inner bounded.2, ran]
      | ok result =>
        obtain ⟨outer, value⟩ := result
        simp only [ran, Nat.max_le] at bounded
        simp only [cut, run, ihLeft limit position bounded.1, opened,
          ihRule limit inner bounded.2.1, ran, ihRight limit outer bounded.2.2]
  | within context rule ih =>
    intro limit position bounded
    simp only [cut, run, ih limit position bounded]
  | deferred rule ih =>
    intro limit position bounded
    cases limit with
    | zero => exact absurd bounded (Nat.not_succ_le_zero _)
    | succ limit =>
      simp only [cut, run]
      exact ih () limit position (Nat.le_of_succ_le_succ bounded)

end

end Tripwire.Rule
