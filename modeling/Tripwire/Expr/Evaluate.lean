import Tripwire.Expr.Apply
import Tripwire.Expr.Basic

/-!
Evaluation of expression trees.  An evaluation yields an outcome and the names
that it read, in order.  When it is contained, an operator that fails counts as
false; otherwise the first error ends it.  A crash always ends it.
-/

namespace Tripwire

/-- What an evaluation came to, and the names it read. -/
structure Evaluation where
  outcome : Attempt CoercionError Value
  reads : List String

namespace Evaluation

def ofAttempt (outcome : Attempt CoercionError Value) : Evaluation := ⟨outcome, []⟩

/-- Goes on with the value, if there is one. -/
def andThen (evaluation : Evaluation) (next : Value → Evaluation) : Evaluation :=
  match evaluation.outcome with
  | .ok value => ⟨(next value).outcome, evaluation.reads ++ (next value).reads⟩
  | .error fault => ⟨.error fault, evaluation.reads⟩

def contain (evaluation : Evaluation) : Evaluation :=
  match evaluation.outcome with
  | .error (.error _) => ⟨.ok (.boolean false), evaluation.reads⟩
  | _ => evaluation

@[simp] theorem andThen_ok (value : Value) (reads : List String) (next : Value → Evaluation) :
    andThen ⟨.ok value, reads⟩ next = ⟨(next value).outcome, reads ++ (next value).reads⟩ := rfl

@[simp] theorem andThen_error (fault : Fault CoercionError) (reads : List String)
    (next : Value → Evaluation) : andThen ⟨.error fault, reads⟩ next = ⟨.error fault, reads⟩ := rfl

@[simp] theorem reads_contain (evaluation : Evaluation) :
    evaluation.contain.reads = evaluation.reads := by
  unfold contain
  split <;> rfl

end Evaluation

structure Scope where
  values : NameMap Value
  mode : Mode
  rules : Rules

/-- The value of a name; a name without one counts as null. -/
def Scope.value (scope : Scope) (name : String) : Value := (scope.values.get? name).getD .null

namespace Expr

/-- The logical operators decide by their left operand where they can; the
others take both values. -/
def combine (resolver : Resolver) (scope : Scope) (op : BinaryOperator) (left : Value)
    (right : Evaluation) : Evaluation :=
  let truth (value : Value) : Evaluation := .ofAttempt (.ok (.boolean value.truthy))
  match op with
  | .and => if left.truthy then right.andThen truth else truth left
  | .or => if left.truthy then truth left else right.andThen truth
  | op => right.andThen fun value =>
      .ofAttempt (op.apply resolver scope.rules scope.mode left value)

/-- Evaluates a tree, each failing operator being passed through `settle`. -/
def evaluateWith (settle : Evaluation → Evaluation) (resolver : Resolver) (scope : Scope) :
    Expr → Evaluation
  | literal value _ => .ofAttempt (.ok value)
  | var name _ => ⟨.ok (scope.value name), [name]⟩
  | unary op operand =>
    settle <| (operand.evaluateWith settle resolver scope).andThen fun value =>
      .ofAttempt (op.apply resolver scope.rules scope.mode value)
  | binary op left right =>
    settle <| (left.evaluateWith settle resolver scope).andThen fun value =>
      combine resolver scope op value (right.evaluateWith settle resolver scope)

/-- Evaluation in which a failing operator counts as false. -/
def contained (resolver : Resolver) (scope : Scope) (e : Expr) : Evaluation :=
  e.evaluateWith .contain resolver scope

/-- Evaluation that ends at the first error. -/
def strictly (resolver : Resolver) (scope : Scope) (e : Expr) : Evaluation :=
  e.evaluateWith id resolver scope

end Expr

end Tripwire
