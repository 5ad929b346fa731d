import Tripwire.Coercion.Error
import Tripwire.Operator
import Tripwire.Value.Number

/-!
Coercion plans: which kinds an operator wants its operands in, decided from the
kinds of the operands and the mode.
-/

namespace Tripwire

inductive Operation
  | unary (op : UnaryOperator)
  | binary (op : BinaryOperator)
  deriving DecidableEq

def Operation.text : Operation → String
  | unary op => op.text
  | binary op => op.text

/-- The kinds that operands are converted to, and the kind of the result. -/
structure Plan where
  left : Kind
  right : Kind
  result : Kind
  deriving DecidableEq

namespace Plan

def uniform (kind : Kind) : Plan := ⟨kind, kind, kind⟩

def predicate (operand : Kind) : Plan := ⟨operand, operand, .boolean⟩

def text (plan : Plan) : String :=
  s!"({plan.left.text}, {plan.right.text}) -> {plan.result.text}"

/-- Whether both operands become numbers in loose mode. -/
def convertible (mode : Mode) (left right : Kind) : Bool :=
  mode = .loose && left.canBeNumber && right.canBeNumber

def ofUnary? (op : UnaryOperator) (operand : Kind) (mode : Mode) : Option Plan :=
  match op with
  | .not => some (uniform .boolean)
  | .minus | .plus =>
    match operand with
    | .number | .boolean => some (uniform .number)
    | .null => some (uniform .null)
    | .string => if mode = .loose then some (uniform .number) else none
    | .other => none
  | .complement =>
    match operand with
    | .number => some (uniform .number)
    | .null => some (uniform .null)
    | kind => if mode = .loose ∧ kind.canBeNumber then some (uniform .number) else none

def ofBinary? (op : BinaryOperator) (left right : Kind) (mode : Mode) : Option Plan :=
  if op.isArithmetic then
    if left = .number ∧ right = .number then some (uniform .number)
    else if op = .add ∧ (left = .string ∨ right = .string) then some (uniform .string)
    else if convertible mode left right then some (uniform .number)
    else none
  else if op.isRelational then
    if left = .number ∧ right = .number ∨ convertible mode left right then
      some (predicate .number)
    else none
  else if op = .equal ∨ op = .notEqual then
    if left ≠ right ∧ mode = .loose then some (predicate .string) else some (predicate .other)
  else if op.isEquality then some (predicate .other)
  else some (uniform .boolean)

/-- The plan for an operator; a unary one gets the kind of its operand twice. -/
def resolve (operation : Operation) (left right : Kind) (mode : Mode) :
    Except CoercionError Plan :=
  let plan? :=
    match operation with
    | .unary op => ofUnary? op left mode
    | .binary op => ofBinary? op left right mode
  match plan? with
  | some plan => .ok plan
  | none => .error (.mismatch operation.text left right)

end Plan

/-- What an engine asks about plans and about the truth of a condition. -/
structure Resolver where
  resolve : Operation → Kind → Kind → Mode → Except CoercionError Plan
  isTruthy : Value → Bool

namespace Resolver

def standard : Resolver where
  resolve := Plan.resolve
  isTruthy := Value.isTruthy

instance : Inhabited Resolver := ⟨standard⟩

end Resolver

/-- A memo of plans, failed ones included. -/
structure PlanTable where
  known : List ((Operation × Kind × Kind × Mode) × Except CoercionError Plan)

namespace PlanTable

def empty : PlanTable := ⟨[]⟩

def size (table : PlanTable) : Nat := table.known.length

/-- The memoized plan, or a new one that the table keeps. -/
def resolve (table : PlanTable) (operation : Operation) (left right : Kind) (mode : Mode) :
    Except CoercionError Plan × PlanTable :=
  let key := (operation, left, right, mode)
  match table.known.lookup key with
  | some plan => (plan, table)
  | none =>
    let plan := Plan.resolve operation left right mode
    (plan, ⟨(key, plan) :: table.known⟩)

end PlanTable

end Tripwire
