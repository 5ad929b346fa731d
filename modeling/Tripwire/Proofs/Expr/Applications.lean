import Tripwire.Expr.Evaluate

/-!
The operators that an evaluation applies, with the values they are applied to.

The resolver, the rules and the mode enter an evaluation only there: two
evaluations that read the same values and whose applications have the same
results take the same course (`evaluateWith_of_results`).
-/

namespace Tripwire

namespace Evaluation

variable {evaluation : Evaluation} {next other : Value → Evaluation}

theorem mem_reads_andThen {name : String} :
    name ∈ (evaluation.andThen next).reads ↔
      name ∈ evaluation.reads ∨
        ∃ value, evaluation.outcome = .ok value ∧ name ∈ (next value).reads := by
  obtain ⟨outcome, reads⟩ := evaluation
  cases outcome with
  | ok value => simp
  | error fault => simp

theorem outcome_andThen_eq_error {fault : Fault CoercionError} :
    (evaluation.andThen next).outcome = .error fault ↔
      evaluation.outcome = .error fault ∨
        ∃ value, evaluation.outcome = .ok value ∧ (next value).outcome = .error fault := by
  obtain ⟨outcome, reads⟩ := evaluation
  cases outcome with
  | ok value => simp
  | error fault => simp

theorem andThen_congr
    (same : ∀ value, evaluation.outcome = .ok value → other value = next value) :
    evaluation.andThen other = evaluation.andThen next := by
  obtain ⟨outcome, reads⟩ := evaluation
  cases outcome with
  | ok value => rw [andThen_ok, andThen_ok, same value rfl]
  | error fault => rfl

end Evaluation

namespace BinaryOperator

variable {resolver : Resolver} {rules : Rules} {mode : Mode} {left right : Value}

/-- A plan matters only to arithmetic and to relations. -/
theorem apply_of_others {op : BinaryOperator} (arithmetic : op.isArithmetic = false)
    (relational : op.isRelational = false) :
    op.apply resolver rules mode left right = op.permissive rules left right := by
  simp only [apply]
  split
  next plan found =>
    simp only [planned, arithmetic, relational, Bool.false_eq_true, if_false]
  next => rfl

@[simp] theorem apply_and :
    and.apply resolver rules mode left right = .ok (.boolean (left.truthy && right.truthy)) :=
  apply_of_others rfl rfl

@[simp] theorem apply_or :
    or.apply resolver rules mode left right = .ok (.boolean (left.truthy || right.truthy)) :=
  apply_of_others rfl rfl

end BinaryOperator

/-- An operator and the values that it is applied to. -/
inductive Application
  | unary (op : UnaryOperator) (operand : Value)
  | binary (op : BinaryOperator) (left right : Value)
  deriving DecidableEq

namespace Application

def result (resolver : Resolver) (scope : Scope) : Application → Attempt CoercionError Value
  | unary op operand => op.apply resolver scope.rules scope.mode operand
  | binary op left right => op.apply resolver scope.rules scope.mode left right

end Application

namespace Expr

variable {settle : Evaluation → Evaluation} {resolver resolver' : Resolver} {scope other : Scope}

/-- Whether the left operand alone decides a logical operator. -/
def decides (op : BinaryOperator) (left : Value) : Bool :=
  match op with
  | .and => !left.truthy
  | .or => left.truthy
  | _ => false

/-- The applications that an evaluation makes, in order.  An operator is applied when its
operands have values; one that its left operand decides is not. -/
def applications (settle : Evaluation → Evaluation) (resolver : Resolver) (scope : Scope) :
    Expr → List Application
  | literal _ _ => []
  | var _ _ => []
  | unary op operand =>
    operand.applications settle resolver scope ++
      match (operand.evaluateWith settle resolver scope).outcome with
      | .ok value => [.unary op value]
      | .error _ => []
  | binary op left right =>
    left.applications settle resolver scope ++
      match (left.evaluateWith settle resolver scope).outcome with
      | .ok value =>
        if decides op value then []
        else
          right.applications settle resolver scope ++
            match (right.evaluateWith settle resolver scope).outcome with
            | .ok second => [.binary op value second]
            | .error _ => []
      | .error _ => []

theorem mem_applications_unary {op : UnaryOperator} {operand : Expr} {application : Application} :
    application ∈ (unary op operand).applications settle resolver scope ↔
      application ∈ operand.applications settle resolver scope ∨
        ∃ value, (operand.evaluateWith settle resolver scope).outcome = .ok value ∧
          application = .unary op value := by
  rw [applications, List.mem_append]
  apply or_congr_right
  cases (operand.evaluateWith settle resolver scope).outcome with
  | error fault => simp
  | ok value => simp

theorem mem_applications_binary {op : BinaryOperator} {left right : Expr}
    {application : Application} :
    application ∈ (binary op left right).applications settle resolver scope ↔
      application ∈ left.applications settle resolver scope ∨
        ∃ value, (left.evaluateWith settle resolver scope).outcome = .ok value ∧
          decides op value = false ∧
          (application ∈ right.applications settle resolver scope ∨
            ∃ second, (right.evaluateWith settle resolver scope).outcome = .ok second ∧
              application = .binary op value second) := by
  rw [applications, List.mem_append]
  apply or_congr_right
  cases (left.evaluateWith settle resolver scope).outcome with
  | error fault => simp
  | ok value =>
    cases decided : decides op value with
    | true => simp [decided]
    | false => cases (right.evaluateWith settle resolver scope).outcome <;> simp [decided]

/-- Where its left operand does not decide, a logical operator too is an application to two
values. -/
theorem combine_eq (op : BinaryOperator) (left : Value) (right : Evaluation) :
    combine resolver scope op left right =
      if decides op left then .ofAttempt (.ok (.boolean left.truthy))
      else right.andThen fun second =>
        .ofAttempt ((Application.binary op left second).result resolver scope) := by
  cases op with
  | and => cases truth : left.truthy <;> simp [combine, decides, truth, Application.result]
  | or => cases truth : left.truthy <;> simp [combine, decides, truth, Application.result]
  | _ => rfl

/-- The same values and the same results of applications make the same evaluation. -/
theorem evaluateWith_of_results
    (keeps : ∀ evaluation, (settle evaluation).reads = evaluation.reads) (e : Expr)
    (values : ∀ name ∈ (e.evaluateWith settle resolver scope).reads,
      other.value name = scope.value name)
    (results : ∀ application ∈ e.applications settle resolver scope,
      application.result resolver' other = application.result resolver scope) :
    e.evaluateWith settle resolver' other = e.evaluateWith settle resolver scope := by
  induction e with
  | literal value kind => rfl
  | var name expected =>
    have equal : other.value name = scope.value name := values name List.mem_cons_self
    simp only [evaluateWith, equal]
  | unary op operand ih =>
    simp only [evaluateWith, keeps, Evaluation.mem_reads_andThen] at values
    simp only [mem_applications_unary] at results
    have inner := ih (fun name read => values name (.inl read))
      fun application applied => results application (.inl applied)
    simp only [evaluateWith, inner]
    apply congrArg settle
    apply Evaluation.andThen_congr
    intro value found
    exact congrArg Evaluation.ofAttempt (results _ (.inr ⟨value, found, rfl⟩))
  | binary op left right ihLeft ihRight =>
    simp only [evaluateWith, keeps, Evaluation.mem_reads_andThen, combine_eq] at values
    simp only [mem_applications_binary] at results
    have first := ihLeft (fun name read => values name (.inl read))
      fun application applied => results application (.inl applied)
    simp only [evaluateWith, first]
    apply congrArg settle
    apply Evaluation.andThen_congr
    intro value found
    rw [combine_eq, combine_eq]
    -- The right operand counts only where the left one leaves the matter open.
    cases decided : decides op value with
    | true => rfl
    | false =>
      have second := ihRight
        (fun name read => values name (.inr ⟨value, found, by
          rw [decided]
          exact Evaluation.mem_reads_andThen.mpr (.inl read)⟩))
        fun application applied =>
          results application (.inr ⟨value, found, decided, .inl applied⟩)
      rw [second]
      apply Evaluation.andThen_congr
      intro operand foundRight
      exact congrArg Evaluation.ofAttempt
        (results _ (.inr ⟨value, found, decided, .inr ⟨operand, foundRight, rfl⟩⟩))

end Expr
end Tripwire
