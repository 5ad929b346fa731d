import Tripwire.Grammar.Expression
import Tripwire.Proofs.Grammar.Rule

/-!
Running a rule comes to an end within the row of items.

`Parses` is running as the rules mean it: a repetition goes on until its rule does
not match, so a repeated rule that matches without an item has no outcome at all.
`run` bounds its repetitions instead.  For productive rules the two agree, which
is proved by induction on the rule together with the range of its outcomes.
`steady` tells by the look of a rule that it is productive.
-/

namespace Tripwire

/-- The root of a mismatch tells an index. -/
def Mismatch.PointsAt (mismatch : Mismatch) (place : Nat) : Prop :=
  mismatch.root = .endOfInput place ∨
    (∃ expected found, mismatch.root = .unexpected expected found place) ∨
    mismatch.root = .noAlternative place

namespace Rule

variable {ι α β : Type}

/-- A step that is repeated until it fails: from an index to the one where it
fails, with the values of the steps before. -/
inductive Repeats (step : Nat → Outcome α → Prop) : Nat → Nat → List α → Prop
  | stop {position : Nat} {mismatch : Mismatch} :
      step position (.error mismatch) → Repeats step position position []
  | again {position next final : Nat} {value : α} {values : List α} :
      step position (.ok (next, value)) → Repeats step next final values →
      Repeats step position final (value :: values)

/-- What running a rule from an index comes to, if it comes to an end. -/
def Parses [DecidableEq ι] [ToString ι] (input : Array ι) :
    {α : Type} → Rule ι α → Nat → Outcome α → Prop
  | _, equal item, position, outcome => outcome = run input (equal item) position
  | _, satisfy image expected, position, outcome =>
    outcome = run input (satisfy image expected) position
  | _, none, position, outcome => outcome = .error (.noAlternative position)
  | _, orElse first second, position, outcome =>
    ∃ attempt, Parses input first position attempt ∧
      match attempt with
      | .ok result => outcome = .ok result
      | .error _ => Parses input second position outcome
  | _, map f rule, position, outcome =>
    ∃ inner, Parses input rule position inner ∧
      outcome = inner.map fun (next, value) => (next, f value)
  | _, unit rule, position, outcome =>
    ∃ inner, Parses input rule position inner ∧ outcome = inner.map fun (next, _) => (next, ())
  | _, many rule, position, outcome =>
    ∃ final values, Repeats (Parses input rule) position final values ∧
      outcome = .ok (final, values)
  | _, pair first second, position, outcome =>
    ∃ attempt, Parses input first position attempt ∧
      match attempt with
      | .error mismatch => outcome = .error mismatch
      | .ok (middle, a) =>
        ∃ inner, Parses input second middle inner ∧
          outcome = inner.map fun (next, b) => (next, (a, b))
  | _, delimited left rule right, position, outcome =>
    ∃ attempt, Parses input left position attempt ∧
      match attempt with
      | .error mismatch => outcome = .error mismatch
      | .ok (inner, _) =>
        ∃ attempt, Parses input rule inner attempt ∧
          match attempt with
          | .error mismatch => outcome = .error mismatch
          | .ok (outer, value) =>
            ∃ attempt, Parses input right outer attempt ∧
              outcome = attempt.map fun (next, _) => (next, value)
  | _, within context rule, position, outcome =>
    ∃ inner, Parses input rule position inner ∧ outcome = inner.mapError (.within context)
  | _, deferred rule, position, outcome => Parses input (rule ()) position outcome

/-- No repeated rule matches without taking an item. -/
def Productive [DecidableEq ι] [ToString ι] (input : Array ι) : {α : Type} → Rule ι α → Prop
  | _, equal _ => True
  | _, satisfy _ _ => True
  | _, none => True
  | _, orElse first second => Productive input first ∧ Productive input second
  | _, map _ rule => Productive input rule
  | _, unit rule => Productive input rule
  | _, many rule =>
    Productive input rule ∧ ∀ position value, ¬ Parses input rule position (.ok (position, value))
  | _, pair first second => Productive input first ∧ Productive input second
  | _, delimited left rule right =>
    Productive input left ∧ Productive input rule ∧ Productive input right
  | _, within _ rule => Productive input rule
  | _, deferred rule => Productive input (rule ())

/-- An outcome that stays between an index and a bound. -/
def InRange (position bound : Nat) : Outcome α → Prop
  | .ok (next, _) => position ≤ next ∧ next ≤ bound
  | .error mismatch => ∃ place, mismatch.PointsAt place ∧ position ≤ place ∧ place ≤ bound

section
variable {position size : Nat}

theorem inRange_here {mismatch : Mismatch} (points : mismatch.PointsAt position) :
    InRange position (max position size) (.error mismatch : Outcome α) :=
  ⟨position, points, Nat.le_refl _, Nat.le_max_left _ _⟩

theorem inRange_next {input : Array ι} {item : ι} (found : input[position]? = some item)
    (value : α) : InRange position (max position input.size) (.ok (position + 1, value)) := by
  obtain ⟨inside, -⟩ := Array.getElem?_eq_some_iff.mp found
  exact ⟨Nat.le_succ _, Nat.le_trans inside (Nat.le_max_right _ _)⟩

/-- What stays in range from an index that is in range itself. -/
theorem InRange.later {middle : Nat} {a : α} {outcome : Outcome β}
    (first : InRange position (max position size) (.ok (middle, a)))
    (second : InRange middle (max middle size) outcome) :
    InRange position (max position size) outcome := by
  obtain ⟨start, stop⟩ := first
  have bounded : max middle size ≤ max position size :=
    Nat.max_le.mpr ⟨stop, Nat.le_max_right _ _⟩
  cases outcome with
  | ok result => exact ⟨Nat.le_trans start second.1, Nat.le_trans second.2 bounded⟩
  | error mismatch =>
    obtain ⟨place, points, behind, within⟩ := second
    exact ⟨place, points, Nat.le_trans start behind, Nat.le_trans within bounded⟩

theorem Repeats.inRange {step : Nat → Outcome α → Prop} {final : Nat} {values : List α}
    (ranges : ∀ position outcome, step position outcome →
      InRange position (max position size) outcome)
    (repeated : Repeats step position final values) :
    InRange position (max position size) (.ok (final, values)) := by
  induction repeated with
  | stop _ => exact ⟨Nat.le_refl _, Nat.le_max_left _ _⟩
  | again matched _ ih => exact (ranges _ _ matched).later ih

theorem Repeats.unique {step : Nat → Outcome α → Prop} {final other : Nat}
    {values others : List α}
    (functional : ∀ position first second, step position first → step position second →
      first = second)
    (one : Repeats step position final values) (two : Repeats step position other others) :
    final = other ∧ values = others := by
  induction one generalizing others with
  | stop failed =>
    cases two with
    | stop _ => exact ⟨rfl, rfl⟩
    | again matched _ => cases functional _ _ _ failed matched
  | again matched _ ih =>
    cases two with
    | stop failed => cases functional _ _ _ failed matched
    | again matchedToo rest =>
      cases functional _ _ _ matched matchedToo
      obtain ⟨sameEnd, sameValues⟩ := ih rest
      exact ⟨sameEnd, congrArg _ sameValues⟩

/-- With as much fuel as there are items left, collecting goes on until the step fails. -/
theorem repeats_collect {step : Nat → Outcome α}
    (ranges : ∀ position, InRange position (max position size) (step position))
    (moves : ∀ position value, step position ≠ .ok (position, value)) (fuel : Nat) :
    ∀ position, size < position + fuel →
      Repeats (fun position outcome => outcome = step position) position
        (collect step fuel position).1 (collect step fuel position).2 := by
  have advances (position next : Nat) (value : α) (stepped : step position = .ok (next, value)) :
      position < next ∧ next ≤ max position size := by
    have range := ranges position
    rw [stepped] at range
    refine ⟨Nat.lt_of_le_of_ne range.1 ?_, range.2⟩
    rintro rfl
    exact moves position value stepped
  induction fuel with
  | zero =>
    intro position enough
    cases stepped : step position with
    | error mismatch => exact .stop stepped.symm
    | ok result =>
      have := advances position result.1 result.2 stepped
      omega
  | succ fuel ih =>
    intro position enough
    simp only [collect]
    cases stepped : step position with
    | error mismatch => exact .stop stepped.symm
    | ok result =>
      obtain ⟨next, value⟩ := result
      obtain ⟨advanced, -⟩ := advances position next value stepped
      simp only [advanced, if_true]
      exact .again stepped.symm (ih next (by omega))

theorem repeats_iff {step : Nat → Outcome α}
    (ranges : ∀ position, InRange position (max position size) (step position))
    (moves : ∀ position value, step position ≠ .ok (position, value))
    {final : Nat} {values : List α} :
    Repeats (fun position outcome => outcome = step position) position final values ↔
      collect step (size + 1) position = (final, values) := by
  have collected := repeats_collect ranges moves (size + 1) position (by omega)
  constructor
  · intro repeated
    obtain ⟨sameEnd, sameValues⟩ :=
      collected.unique (fun _ _ _ one two => one.trans two.symm) repeated
    exact Prod.ext sameEnd sameValues
  · intro same
    rw [same] at collected
    exact collected

end

section
variable [DecidableEq ι] [ToString ι] {input : Array ι} {position next : Nat}

/-- What a rule comes to neither steps back nor passes the end of the items. -/
theorem inRange_of_parses {rule : Rule ι α} :
    ∀ position outcome, rule.Parses input position outcome →
      InRange position (max position input.size) outcome := by
  induction rule with
  | equal item =>
    rintro position _ rfl
    simp only [run]
    split
    next found present =>
      split
      · exact inRange_next present found
      · exact inRange_here (.inr (.inl ⟨_, _, rfl⟩))
    next => exact inRange_here (.inl rfl)
  | satisfy image expected =>
    rintro position _ rfl
    simp only [run]
    split
    next found present =>
      split
      next value _ => exact inRange_next present value
      next => exact inRange_here (.inr (.inl ⟨_, _, rfl⟩))
    next => exact inRange_here (.inl rfl)
  | none =>
    rintro position _ rfl
    exact inRange_here (.inr (.inr rfl))
  | orElse first second ihFirst ihSecond =>
    rintro position outcome ⟨attempt, tried, otherwise⟩
    cases attempt with
    | ok result =>
      subst otherwise
      exact ihFirst position _ tried
    | error mismatch => exact ihSecond position outcome otherwise
  | map f rule ih =>
    rintro position _ ⟨inner, parsed, rfl⟩
    have range := ih position inner parsed
    cases inner <;> exact range
  | unit rule ih =>
    rintro position _ ⟨inner, parsed, rfl⟩
    have range := ih position inner parsed
    cases inner <;> exact range
  | many rule ih =>
    rintro position _ ⟨final, values, repeated, rfl⟩
    exact repeated.inRange ih
  | pair first second ihFirst ihSecond =>
    rintro position outcome ⟨attempt, tried, continued⟩
    have one := ihFirst position attempt tried
    cases attempt with
    | error mismatch =>
      subst continued
      exact one
    | ok result =>
      obtain ⟨inner, parsed, rfl⟩ := continued
      have both := one.later (ihSecond _ inner parsed)
      cases inner <;> exact both
  | delimited left rule right ihLeft ihRule ihRight =>
    rintro position outcome ⟨opening, opened, continued⟩
    have before := ihLeft position opening opened
    cases opening with
    | error mismatch =>
      subst continued
      exact before
    | ok result =>
      obtain ⟨inner, parsed, continued⟩ := continued
      have between := before.later (ihRule _ inner parsed)
      cases inner with
      | error mismatch =>
        subst continued
        exact between
      | ok result =>
        obtain ⟨closing, closed, rfl⟩ := continued
        have behind := between.later (ihRight _ closing closed)
        cases closing <;> exact behind
  | within context rule ih =>
    rintro position _ ⟨inner, parsed, rfl⟩
    have range := ih position inner parsed
    cases inner <;> exact range
  | deferred rule ih => exact ih ()

/-- A productive rule comes to an end, with what running it gives and nothing else. -/
theorem parses_iff {rule : Rule ι α} (productive : rule.Productive input) :
    ∀ position outcome,
      rule.Parses input position outcome ↔ outcome = run input rule position := by
  induction rule with
  | equal item => exact fun _ _ => Iff.rfl
  | satisfy image expected => exact fun _ _ => Iff.rfl
  | none => exact fun _ _ => Iff.rfl
  | orElse first second ihFirst ihSecond =>
    intro position outcome
    simp only [Parses, ihFirst productive.1, exists_eq_left, run]
    cases run input first position with
    | ok result => exact Iff.rfl
    | error mismatch => exact ihSecond productive.2 position outcome
  | map f rule ih =>
    intro position outcome
    simp only [Parses, ih productive, exists_eq_left, run]
    cases run input rule position <;> exact Iff.rfl
  | unit rule ih =>
    intro position outcome
    simp only [Parses, ih productive, exists_eq_left, run]
    cases run input rule position <;> exact Iff.rfl
  | many rule ih =>
    intro position outcome
    obtain ⟨inner, busy⟩ := productive
    have graph : rule.Parses input = fun position outcome => outcome = run input rule position :=
      funext fun position => funext fun outcome => propext (ih inner position outcome)
    have ranges (position) := inRange_of_parses position _ ((ih inner position _).mpr rfl)
    have moves (position value) : run input rule position ≠ .ok (position, value) :=
      fun idle => busy position value ((ih inner position _).mpr idle.symm)
    simp only [Parses, graph, repeats_iff ranges moves, run_many]
    constructor
    · rintro ⟨final, values, collected, rfl⟩
      rw [collected]
    · intro same
      exact ⟨_, _, rfl, same⟩
  | pair first second ihFirst ihSecond =>
    intro position outcome
    simp only [Parses, ihFirst productive.1, ihSecond productive.2, exists_eq_left, run]
    cases run input first position with
    | error mismatch => exact Iff.rfl
    | ok result =>
      obtain ⟨middle, a⟩ := result
      simp only
      cases run input second middle <;> exact Iff.rfl
  | delimited left rule right ihLeft ihRule ihRight =>
    intro position outcome
    obtain ⟨before, between, behind⟩ := productive
    simp only [Parses, ihLeft before, ihRule between, ihRight behind, exists_eq_left, run]
    cases run input left position with
    | error mismatch => exact Iff.rfl
    | ok result =>
      obtain ⟨inner, u⟩ := result
      simp only
      cases run input rule inner with
      | error mismatch => exact Iff.rfl
      | ok result =>
        obtain ⟨outer, value⟩ := result
        simp only
        cases run input right outer <;> exact Iff.rfl
  | within context rule ih =>
    intro position outcome
    simp only [Parses, ih productive, exists_eq_left, run]
    cases run input rule position <;> exact Iff.rfl
  | deferred rule ih => exact fun position outcome => ih () productive position outcome

/-- Whether every match takes an item, by the look of the rule. -/
def consumes : {α : Type} → Rule ι α → Bool
  | _, equal _ => true
  | _, satisfy _ _ => true
  | _, none => true
  | _, orElse first second => first.consumes && second.consumes
  | _, map _ rule => rule.consumes
  | _, unit rule => rule.consumes
  | _, many _ => false
  | _, pair first second => first.consumes || second.consumes
  | _, delimited left rule right => left.consumes || rule.consumes || right.consumes
  | _, within _ rule => rule.consumes
  | _, deferred rule => (rule ()).consumes

/-- Whether each repeated rule takes an item with every match, by the look of the rule. -/
def steady : {α : Type} → Rule ι α → Bool
  | _, equal _ => true
  | _, satisfy _ _ => true
  | _, none => true
  | _, orElse first second => first.steady && second.steady
  | _, map _ rule => rule.steady
  | _, unit rule => rule.steady
  | _, many rule => rule.steady && rule.consumes
  | _, pair first second => first.steady && second.steady
  | _, delimited left rule right => left.steady && rule.steady && right.steady
  | _, within _ rule => rule.steady
  | _, deferred rule => (rule ()).steady

theorem le_of_parses {rule : Rule ι α} {value : α}
    (parsed : rule.Parses input position (.ok (next, value))) : position ≤ next :=
  (inRange_of_parses position _ parsed).1

theorem Parses.pair_ok {first : Rule ι α} {second : Rule ι β} {a : α} {b : β}
    (parsed : (pair first second).Parses input position (.ok (next, (a, b)))) :
    ∃ middle, first.Parses input position (.ok (middle, a)) ∧
      second.Parses input middle (.ok (next, b)) := by
  obtain ⟨attempt, tried, continued⟩ := parsed
  cases attempt with
  | error mismatch => cases continued
  | ok result =>
    obtain ⟨inner, read, same⟩ := continued
    cases inner <;> cases same
    exact ⟨_, tried, read⟩

theorem Parses.delimited_ok {left right : Rule ι Unit} {rule : Rule ι α} {value : α}
    (parsed : (delimited left rule right).Parses input position (.ok (next, value))) :
    ∃ inner outer, left.Parses input position (.ok (inner, ())) ∧
      rule.Parses input inner (.ok (outer, value)) ∧ right.Parses input outer (.ok (next, ())) := by
  obtain ⟨opening, opened, continued⟩ := parsed
  cases opening with
  | error mismatch => cases continued
  | ok result =>
    obtain ⟨attempt, read, continued⟩ := continued
    cases attempt with
    | error mismatch => cases continued
    | ok between =>
      obtain ⟨closing, closed, same⟩ := continued
      cases closing <;> cases same
      exact ⟨_, _, opened, read, closed⟩

theorem lt_of_consumes {rule : Rule ι α} (consuming : rule.consumes = true) :
    ∀ position next value, rule.Parses input position (.ok (next, value)) → position < next := by
  induction rule with
  | equal item =>
    intro position next value parsed
    obtain ⟨-, rfl, -⟩ := run_equal_eq_ok.mp parsed.symm
    exact Nat.lt_succ_self _
  | satisfy image expected =>
    intro position next value parsed
    obtain ⟨-, -, -, rfl⟩ := run_satisfy_eq_ok.mp parsed.symm
    exact Nat.lt_succ_self _
  | none =>
    rintro position next value ⟨⟩
  | orElse first second ihFirst ihSecond =>
    obtain ⟨one, other⟩ := Bool.and_eq_true_iff.mp consuming
    rintro position next value ⟨attempt, tried, otherwise⟩
    cases attempt with
    | ok result =>
      cases otherwise
      exact ihFirst one position next value tried
    | error mismatch => exact ihSecond other position next value otherwise
  | map f rule ih =>
    rintro position next value ⟨inner, parsed, same⟩
    cases inner with
    | error mismatch => cases same
    | ok result =>
      cases same
      exact ih consuming position _ _ parsed
  | unit rule ih =>
    rintro position next value ⟨inner, parsed, same⟩
    cases inner with
    | error mismatch => cases same
    | ok result =>
      cases same
      exact ih consuming position _ _ parsed
  | many rule ih => cases consuming
  | pair first second ihFirst ihSecond =>
    intro position next value parsed
    obtain ⟨middle, one, other⟩ := parsed.pair_ok
    rcases Bool.or_eq_true_iff.mp consuming with before | behind
    · exact Nat.lt_of_lt_of_le (ihFirst before position _ _ one) (le_of_parses other)
    · exact Nat.lt_of_le_of_lt (le_of_parses one) (ihSecond behind middle _ _ other)
  | delimited left rule right ihLeft ihRule ihRight =>
    intro position next value parsed
    obtain ⟨inner, outer, opened, read, closed⟩ := parsed.delimited_ok
    have start := le_of_parses opened
    have content := le_of_parses read
    have stop := le_of_parses closed
    simp only [consumes, Bool.or_eq_true_iff] at consuming
    rcases consuming with (before | between) | behind
    · have moved := ihLeft before position _ _ opened
      omega
    · have moved := ihRule between inner _ _ read
      omega
    · have moved := ihRight behind outer _ _ closed
      omega
  | within context rule ih =>
    rintro position next value ⟨inner, parsed, same⟩
    cases inner with
    | error mismatch => cases same
    | ok result =>
      cases same
      exact ih consuming position _ _ parsed
  | deferred rule ih => exact ih () consuming

theorem productive_of_steady {rule : Rule ι α} (sure : rule.steady = true) :
    rule.Productive input := by
  induction rule with
  | equal item => trivial
  | satisfy image expected => trivial
  | none => trivial
  | orElse first second ihFirst ihSecond =>
    obtain ⟨one, other⟩ := Bool.and_eq_true_iff.mp sure
    exact ⟨ihFirst one, ihSecond other⟩
  | map f rule ih => exact ih sure
  | unit rule ih => exact ih sure
  | many rule ih =>
    obtain ⟨inner, consuming⟩ := Bool.and_eq_true_iff.mp sure
    exact ⟨ih inner, fun position value parsed =>
      Nat.lt_irrefl _ (lt_of_consumes consuming position position value parsed)⟩
  | pair first second ihFirst ihSecond =>
    obtain ⟨one, other⟩ := Bool.and_eq_true_iff.mp sure
    exact ⟨ihFirst one, ihSecond other⟩
  | delimited left rule right ihLeft ihRule ihRight =>
    obtain ⟨both, behind⟩ := Bool.and_eq_true_iff.mp sure
    obtain ⟨before, between⟩ := Bool.and_eq_true_iff.mp both
    exact ⟨ihLeft before, ihRule between, ihRight behind⟩
  | within context rule ih => exact ih sure
  | deferred rule ih => exact ih () sure

/-- Running a productive rule comes to an end: after the items that it takes, or with a root that
points at an item or the end.  A repetition goes on exactly until its rule does not match. -/
theorem ends_in_range (input : Array ι) :
    (∀ {α : Type} (rule : Rule ι α), rule.Productive input → ∀ position ≤ input.size,
      (∀ outcome, rule.Parses input position outcome ↔ outcome = rule.run input position) ∧
      (∀ next value, rule.run input position = .ok (next, value) →
        position ≤ next ∧ next ≤ input.size) ∧
      ∀ mismatch, rule.run input position = .error mismatch →
        ∃ place, mismatch.PointsAt place ∧ position ≤ place ∧ place ≤ input.size) ∧
    ∀ {α : Type} (body : Rule ι α), (many body).Productive input → ∀ position ≤ input.size,
      ∃ final values, (many body).run input position = .ok (final, values) ∧
        Repeats (body.Parses input) position final values := by
  refine ⟨fun rule productive position inside => ⟨parses_iff productive position, ?_, ?_⟩,
    fun body productive position _ => ?_⟩
  · intro next value ran
    have range := inRange_of_parses position _ ((parses_iff productive position _).mpr ran.symm)
    rw [Nat.max_eq_right inside] at range
    exact range
  · intro mismatch failed
    have range := inRange_of_parses position _ ((parses_iff productive position _).mpr failed.symm)
    rw [Nat.max_eq_right inside] at range
    exact range
  · obtain ⟨final, values, repeated, ran⟩ := (parses_iff productive position _).mpr rfl
    exact ⟨final, values, ran, repeated⟩

/-- Digits are read up to the first character that is none. -/
theorem ends_in_range_of_digits :
    let digit : Rule Char Nat :=
      satisfy (fun c => if c.isDigit then some (c.toNat - 48) else .none) "digit"
    let input := #['1', '2', 'x']
    (many digit).Productive input ∧ 0 ≤ input.size ∧
      (many digit).Parses input 0 (.ok (2, [1, 2])) ∧
      (∃ final values, (many digit).run input 0 = .ok (final, values) ∧
        Repeats (digit.Parses input) 0 final values) := by
  intro digit input
  have productive : (many digit).Productive input := productive_of_steady rfl
  obtain ⟨ends, -, -⟩ := (ends_in_range input).1 (many digit) productive 0 (Nat.zero_le _)
  exact ⟨productive, Nat.zero_le _, (ends _).mpr rfl,
    (ends_in_range input).2 digit productive 0 (Nat.zero_le _)⟩

end

end Rule

namespace Grammar

theorem steady_tier (level : Level) {operand : Rule Token Expr}
    (sure : operand.steady = true ∧ operand.consumes = true) :
    (tier level operand).steady = true ∧ (tier level operand).consumes = true := by
  simp [tier, operator, Rule.steady, Rule.consumes, sure]

theorem steady_expressionOver {operand : Rule Token Expr}
    (sure : operand.steady = true ∧ operand.consumes = true) :
    (expressionOver operand).steady = true ∧ (expressionOver operand).consumes = true := by
  have tiers : (tiers operand).steady = true ∧ (tiers operand).consumes = true := by
    iterate 6 apply steady_tier
    exact sure
  exact tiers

theorem steady_unary (depth : Nat) :
    (unary depth).steady = true ∧ (unary depth).consumes = true := by
  induction depth with
  | zero => exact ⟨rfl, rfl⟩
  | succ depth ih =>
    simp [unary, primary, parenthesized, paren, literal, identifier, unaryOperator, Rule.choice,
      Rule.steady, Rule.consumes, ih, steady_expressionOver ih]

/-- The rules of the expression grammar are productive, on whatever tokens they run. -/
theorem productive_complete (depth : Nat) (tokens : Array Token) :
    (complete depth).Productive tokens := by
  apply Rule.productive_of_steady
  simp [complete, expression, Rule.steady, steady_expressionOver (steady_unary depth)]

end Grammar
end Tripwire
