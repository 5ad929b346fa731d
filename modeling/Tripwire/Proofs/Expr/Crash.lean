import Tripwire.Proofs.Expr.Applications

/-!
Where crashes come from.

An evaluation crashes only in an application of an operator
(`exists_application_of_crash`), and an application only in a function of the
rules.  So under rules that never crash, such as the standard ones, no
evaluation does.
-/

namespace Tripwire

/-! ### Steps that do not crash -/

namespace Crash

variable {α β : Type} {first : Except Crash α}

theorem pure_ne_error (value : α) (crash : Crash) : (pure value : Except Crash α) ≠ .error crash :=
  nofun

theorem map_ne_error (calm : ∀ crash, first ≠ .error crash) (f : α → β) (crash : Crash) :
    first.map f ≠ .error crash := by
  cases first with
  | ok value => exact pure_ne_error (f value) crash
  | error cause => exact absurd rfl (calm cause)

theorem bind_ne_error {next : α → Except Crash β} (calm : ∀ crash, first ≠ .error crash)
    (later : ∀ value crash, next value ≠ .error crash) (crash : Crash) :
    (first >>= next) ≠ .error crash := by
  cases first with
  | ok value => exact later value crash
  | error cause => exact absurd rfl (calm cause)

end Crash

namespace Attempt

variable {ε α : Type}

theorem checked_ne_crash (outcome : Except ε α) (crash : Crash) :
    (checked outcome : Attempt ε α) ≠ .error (.crash crash) := by
  cases outcome <;> simp [checked]

theorem guarded_ne_crash {outcome : Except Crash α}
    (calm : ∀ crash, outcome ≠ .error crash) (crash : Crash) :
    (guarded outcome : Attempt ε α) ≠ .error (.crash crash) := by
  cases outcome with
  | ok value => simp [guarded]
  | error cause => exact absurd rfl (calm cause)

end Attempt

namespace Expr

variable {settle : Evaluation → Evaluation} {resolver : Resolver} {scope : Scope} {crash : Crash}

theorem exists_application_of_crash
    (passes : ∀ evaluation, (settle evaluation).outcome = .error (.crash crash) →
      evaluation.outcome = .error (.crash crash))
    {e : Expr}
    (crashed : (e.evaluateWith settle resolver scope).outcome = .error (.crash crash)) :
    ∃ application ∈ e.applications settle resolver scope,
      application.result resolver scope = .error (.crash crash) := by
  induction e with
  | literal value kind => cases crashed
  | var name expected => cases crashed
  | unary op operand ih =>
    rcases Evaluation.outcome_andThen_eq_error.mp (passes _ crashed) with
      inner | ⟨value, found, result⟩
    · obtain ⟨application, applied, result⟩ := ih inner
      exact ⟨application, mem_applications_unary.mpr (.inl applied), result⟩
    · exact ⟨_, mem_applications_unary.mpr (.inr ⟨value, found, rfl⟩), result⟩
  | binary op left right ihLeft ihRight =>
    rcases Evaluation.outcome_andThen_eq_error.mp (passes _ crashed) with
      first | ⟨value, found, later⟩
    · obtain ⟨application, applied, result⟩ := ihLeft first
      exact ⟨application, mem_applications_binary.mpr (.inl applied), result⟩
    · rw [combine_eq] at later
      split at later
      next => cases later
      next decided =>
        have undecided := Bool.eq_false_iff.mpr decided
        rcases Evaluation.outcome_andThen_eq_error.mp later with
          second | ⟨operand, foundRight, result⟩
        · obtain ⟨application, applied, result⟩ := ihRight second
          exact ⟨application,
            mem_applications_binary.mpr (.inr ⟨value, found, undecided, .inl applied⟩), result⟩
        · exact ⟨_, mem_applications_binary.mpr
            (.inr ⟨value, found, undecided, .inr ⟨operand, foundRight, rfl⟩⟩), result⟩

end Expr

/-! ### Rules that never crash -/

namespace Rules

/-- No function of the rules crashes, whatever it is given. -/
structure Calm (rules : Rules) : Prop where
  toNumber : ∀ value crash, rules.toNumber value ≠ .error crash
  toBoolean : ∀ value crash, rules.toBoolean value ≠ .error crash
  toText : ∀ value crash, rules.toText value ≠ .error crash
  add : ∀ left right crash, rules.add left right ≠ .error (.crash crash)
  subtract : ∀ left right crash, rules.subtract left right ≠ .error (.crash crash)
  multiply : ∀ left right crash, rules.multiply left right ≠ .error (.crash crash)
  divide : ∀ left right crash, rules.divide left right ≠ .error (.crash crash)
  remainder : ∀ left right crash, rules.remainder left right ≠ .error (.crash crash)
  strictEquals : ∀ left right crash, rules.strictEquals left right ≠ .error crash
  looseEquals : ∀ left right crash, rules.looseEquals left right ≠ .error crash
  compare : ∀ left right crash, rules.compare left right ≠ .error crash

theorem calm_standard : standard.Calm where
  toNumber := nofun
  toBoolean := nofun
  toText := nofun
  add := nofun
  subtract _ _ := Attempt.checked_ne_crash _
  multiply _ _ := Attempt.checked_ne_crash _
  divide _ _ := Attempt.checked_ne_crash _
  remainder _ _ := Attempt.checked_ne_crash _
  strictEquals := nofun
  looseEquals := nofun
  compare := nofun

namespace Calm

variable {rules : Rules} {resolver : Resolver} {scope : Scope}

theorem toNumber_ok (calm : rules.Calm) (value : Value) :
    ∃ number, rules.toNumber value = .ok number := by
  cases converted : rules.toNumber value with
  | ok number => exact ⟨number, rfl⟩
  | error crash => exact absurd converted (calm.toNumber value crash)

theorem permissive (calm : rules.Calm) (op : BinaryOperator) (left right : Value)
    (crash : Crash) : op.permissive rules left right ≠ .error (.crash crash) := by
  cases op with
  | add => exact calm.add left right crash
  | subtract => exact calm.subtract left right crash
  | multiply => exact calm.multiply left right crash
  | divide => exact calm.divide left right crash
  | remainder => exact calm.remainder left right crash
  | and => nofun
  | or => nofun
  | equal | notEqual =>
    exact Attempt.guarded_ne_crash (Crash.map_ne_error (calm.looseEquals left right) _) crash
  | strictEqual | strictNotEqual =>
    exact Attempt.guarded_ne_crash (Crash.map_ne_error (calm.strictEquals left right) _) crash
  | less | greater | lessEqual | greaterEqual =>
    exact Attempt.guarded_ne_crash (Crash.map_ne_error (calm.compare left right) _) crash

/-- Converting both operands to numbers does not crash, if what is done with them does not. -/
theorem toNumber_bind (calm : rules.Calm) (left right : Value)
    {next : Value → Value → Except Crash Value}
    (later : ∀ first second crash, next first second ≠ .error crash) (crash : Crash) :
    (do let first ← rules.toNumber left
        let second ← rules.toNumber right
        next first second) ≠ .error crash := by
  apply Crash.bind_ne_error (calm.toNumber left)
  intro first
  exact Crash.bind_ne_error (calm.toNumber right) (later first)

theorem planned (calm : rules.Calm) (op : BinaryOperator) (result : Kind) (left right : Value)
    (crash : Crash) : op.planned rules result left right ≠ .error (.crash crash) := by
  simp only [BinaryOperator.planned]
  split
  next arithmetic =>
    split
    · exact calm.add left right crash
    · split
      · exact calm.permissive op left right crash
      · apply Attempt.guarded_ne_crash
        apply calm.toNumber_bind
        exact fun first second => Crash.pure_ne_error _
  next =>
    split
    next relational =>
      apply Attempt.guarded_ne_crash
      apply calm.toNumber_bind
      intro first second
      exact Crash.bind_ne_error (calm.compare first second) fun order => Crash.pure_ne_error _
    next => exact calm.permissive op left right crash

theorem result (calm : scope.rules.Calm) (application : Application) (crash : Crash) :
    application.result resolver scope ≠ .error (.crash crash) := by
  cases application with
  | binary op left right =>
    simp only [Application.result, BinaryOperator.apply]
    split
    · exact calm.planned op _ left right crash
    · exact calm.permissive op left right crash
  | unary op operand =>
    obtain ⟨number, converted⟩ := calm.toNumber_ok operand
    simp only [Application.result, UnaryOperator.apply, converted]
    split
    · simp
    · split
      · simp
      · split
        · exact Attempt.checked_ne_crash _ crash
        · split
          · simp
          · exact Attempt.checked_ne_crash _ crash

end Calm
end Rules
end Tripwire
