import Tripwire.Grammar.Rule

/-!
When each kind of rule succeeds, and with which root it fails.
-/

namespace Tripwire

namespace Mismatch

@[simp] theorem root_within (context : String) (cause : Mismatch) :
    (within context cause).root = cause.root := rfl

end Mismatch

namespace Rule

variable {ι α β : Type} [DecidableEq ι] [ToString ι] {input : Array ι} {position next : Nat}

attribute [local simp] run

@[simp] theorem run_equal_eq_ok {item found : ι} :
    run input (equal item) position = .ok (next, found) ↔
      input[position]? = some item ∧ next = position + 1 ∧ found = item := by
  simp only [run]
  cases input[position]? with
  | none => simp
  | some other =>
    by_cases same : other = item
    · subst same
      simp [eq_comm]
    · simp [same]

@[simp] theorem run_satisfy_eq_ok {image : ι → Option α} {expected : String} {value : α} :
    run input (satisfy image expected) position = .ok (next, value) ↔
      ∃ item, input[position]? = some item ∧ image item = some value ∧ next = position + 1 := by
  simp only [run]
  cases input[position]? with
  | none => simp
  | some item => cases found : image item <;> simp [found, eq_comm, and_comm]

theorem run_satisfy_of_none {image : ι → Option α} {expected : String} {item : ι}
    (found : input[position]? = some item) (refused : image item = .none) :
    run input (satisfy image expected) position =
      .error (.unexpected expected (toString item) position) := by
  simp only [run, found, refused]

@[simp] theorem run_none_eq_ok {result : Nat × α} :
    run input none position = .ok result ↔ False := by
  simp [run]

theorem run_orElse_eq_ok {first second : Rule ι α} {result : Nat × α} :
    run input (orElse first second) position = .ok result ↔
      run input first position = .ok result ∨
        (∃ mismatch, run input first position = .error mismatch) ∧
          run input second position = .ok result := by
  simp only [run]
  cases run input first position <;> simp

@[simp] theorem run_map_eq_ok {f : α → β} {rule : Rule ι α} {value : β} :
    run input (map f rule) position = .ok (next, value) ↔
      ∃ before, run input rule position = .ok (next, before) ∧ f before = value := by
  simp only [run]
  cases run input rule position with
  | error mismatch => simp
  | ok result => obtain ⟨reached, before⟩ := result; simp [and_assoc, eq_comm]

theorem run_map_of_error {f : α → β} {rule : Rule ι α} {mismatch : Mismatch}
    (failed : run input rule position = .error mismatch) :
    run input (map f rule) position = .error mismatch := by
  simp only [run, failed]

@[simp] theorem run_unit_eq_ok {rule : Rule ι α} {value : Unit} :
    run input (unit rule) position = .ok (next, value) ↔
      ∃ before, run input rule position = .ok (next, before) := by
  simp only [run]
  cases run input rule position with
  | error mismatch => simp
  | ok result => obtain ⟨reached, before⟩ := result; simp [eq_comm]

@[simp] theorem run_pair_eq_ok {first : Rule ι α} {second : Rule ι β} {a : α} {b : β} :
    run input (pair first second) position = .ok (next, (a, b)) ↔
      ∃ middle, run input first position = .ok (middle, a) ∧
        run input second middle = .ok (next, b) := by
  simp only [run]
  constructor
  · intro succeeded
    split at succeeded
    · cases succeeded
    next middle before firstOk =>
      split at succeeded
      · cases succeeded
      next reached after secondOk =>
        cases succeeded
        exact ⟨middle, firstOk, secondOk⟩
  · rintro ⟨middle, firstOk, secondOk⟩
    simp only [firstOk, secondOk]

theorem run_pair_of_error {first : Rule ι α} {second : Rule ι β} {mismatch : Mismatch}
    (failed : run input first position = .error mismatch) :
    run input (pair first second) position = .error mismatch := by
  simp only [run, failed]

@[simp] theorem run_delimited_eq_ok {left right : Rule ι Unit} {rule : Rule ι α} {value : α} :
    run input (delimited left rule right) position = .ok (next, value) ↔
      ∃ inner outer, run input left position = .ok (inner, ()) ∧
        run input rule inner = .ok (outer, value) ∧ run input right outer = .ok (next, ()) := by
  simp only [run]
  constructor
  · intro succeeded
    split at succeeded
    · cases succeeded
    next inner _ leftOk =>
      split at succeeded
      · cases succeeded
      next outer before ruleOk =>
        split at succeeded
        · cases succeeded
        next reached _ rightOk =>
          cases succeeded
          exact ⟨inner, outer, leftOk, ruleOk, rightOk⟩
  · rintro ⟨inner, outer, leftOk, ruleOk, rightOk⟩
    simp only [leftOk, ruleOk, rightOk]

@[simp] theorem run_within_eq_ok {context : String} {rule : Rule ι α} {result : Nat × α} :
    run input (within context rule) position = .ok result ↔
      run input rule position = .ok result := by
  simp only [run]
  cases run input rule position <;> simp

@[simp] theorem run_deferred {rule : Unit → Rule ι α} :
    run input (deferred rule) position = run input (rule ()) position := by
  simp only [run]

theorem run_many {rule : Rule ι α} :
    run input (many rule) position =
      .ok (collect (fun position => run input rule position) (input.size + 1) position) := by
  simp only [run]

theorem run_within_eq_error {context : String} {rule : Rule ι α} {mismatch : Mismatch} :
    run input (within context rule) position = .error mismatch ↔
      ∃ cause, run input rule position = .error cause ∧ mismatch = .within context cause := by
  simp only [run]
  cases run input rule position <;> simp [eq_comm]

/-- A choice that fails tells that no alternative matched where it stands. -/
theorem run_choice_eq_error {rules : List (Rule ι α)} {mismatch : Mismatch}
    (failed : run input (choice rules) position = .error mismatch) :
    mismatch = .noAlternative position := by
  induction rules with
  | nil =>
    simp only [choice, List.foldr_nil, run, Except.error.injEq] at failed
    exact failed.symm
  | cons first rest ih =>
    simp only [choice, List.foldr_cons, run] at failed
    split at failed
    · cases failed
    · exact ih failed

theorem run_choice_cons_eq_ok {first : Rule ι α} {rest : List (Rule ι α)} {result : Nat × α} :
    run input (choice (first :: rest)) position = .ok result ↔
      run input first position = .ok result ∨
        (∃ mismatch, run input first position = .error mismatch) ∧
          run input (choice rest) position = .ok result :=
  run_orElse_eq_ok

end Rule
end Tripwire
