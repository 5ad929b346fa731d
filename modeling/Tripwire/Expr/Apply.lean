import Tripwire.Coercion.Plan
import Tripwire.Coercion.Rules

/-!
Operators applied to values.  A binary operator first asks for a plan; without
one, or where the plan does not fit the operands, the permissive rules decide.
-/

namespace Tripwire

namespace BinaryOperator

/-- Whether a relation holds of two values in the given order. -/
def holds (op : BinaryOperator) : Option Ordering → Bool
  | none => false
  | some order =>
    match op with
    | .less => order = .lt
    | .lessEqual => order ≠ .gt
    | .greater => order = .gt
    | .greaterEqual => order ≠ .lt
    | _ => false

/-- The operator by the permissive rules alone. -/
def permissive (rules : Rules) (op : BinaryOperator) (left right : Value) :
    Attempt CoercionError Value :=
  match op with
  | .add => rules.add left right
  | .subtract => rules.subtract left right
  | .multiply => rules.multiply left right
  | .divide => rules.divide left right
  | .remainder => rules.remainder left right
  | .equal => .guarded ((rules.looseEquals left right).map .boolean)
  | .notEqual => .guarded ((rules.looseEquals left right).map fun same => .boolean !same)
  | .strictEqual => .guarded ((rules.strictEquals left right).map .boolean)
  | .strictNotEqual => .guarded ((rules.strictEquals left right).map fun same => .boolean !same)
  | .less | .greater | .lessEqual | .greaterEqual =>
    .guarded ((rules.compare left right).map fun order => .boolean (op.holds order))
  | .and => .ok (.boolean (left.truthy && right.truthy))
  | .or => .ok (.boolean (left.truthy || right.truthy))

/-- A text that spells no number. -/
def isWording : Value → Bool
  | .string text => (Value.ofNumericText? text).isNone
  | _ => false

/-- The operator on operands that a plan converts. -/
def planned (rules : Rules) (op : BinaryOperator) (result : Kind) (left right : Value) :
    Attempt CoercionError Value :=
  if op.isArithmetic then
    if result ≠ .number then rules.add left right
    else if isWording left || isWording right then op.permissive rules left right
    else .guarded do
      let a ← rules.toNumber left
      let b ← rules.toNumber right
      return Value.arithmetic op a b
  else if op.isRelational then .guarded do
    let a ← rules.toNumber left
    let b ← rules.toNumber right
    let order ← rules.compare a b
    return .boolean (op.holds order)
  else op.permissive rules left right

def apply (resolver : Resolver) (rules : Rules) (mode : Mode) (op : BinaryOperator)
    (left right : Value) : Attempt CoercionError Value :=
  match resolver.resolve (.binary op) left.kind right.kind mode with
  | .ok plan => op.planned rules plan.result left right
  | .error _ => op.permissive rules left right

end BinaryOperator

namespace UnaryOperator

/-- The number that an operand counts as where no plan applies. -/
def fallback : Value → Value
  | .boolean b => .integer (if b then 1 else 0)
  | value => value.numericLike?.getD (.integer 0)

def negate : Value → Value
  | .integer n =>
    match Integer.negate? n with
    | some m => .integer m
    | none => .float (.ofFloat (-(Binary64.ofInt64 n)))
  | .float x => Value.normalize (.float x.negate)
  | value => value

def complementOf? : Value → Option Value
  | .integer n => some (.integer (~~~n))
  | .float x => (Binary64.toInt64? x.toFloat).map fun n => .integer (~~~n)
  | _ => none

/-- The operator on a value whose number is known. -/
def onNumber (op : UnaryOperator) (value number : Value) : Except CoercionError Value :=
  match op with
  | .plus => .ok number.normalize
  | .minus => .ok (negate number)
  | .complement =>
    match complementOf? number with
    | some result => .ok result
    | none => .error (.unconvertible value.text .number)
  | .not => .ok (.boolean !value.truthy)

/-- The operator on a value; null stays null under all but negation of truth. -/
def apply (resolver : Resolver) (rules : Rules) (mode : Mode) (op : UnaryOperator)
    (value : Value) : Attempt CoercionError Value :=
  if op = .not then .ok (.boolean !value.truthy)
  else if value.isNull then .ok .null
  else
    match resolver.resolve (.unary op) value.kind value.kind mode with
    | .ok _ =>
      match rules.toNumber value with
      | .ok number => .checked (op.onNumber value number)
      | .error crash => .error (.crash crash)
    | .error error =>
      if op = .complement then .error (.error error)
      else .checked (op.onNumber value (fallback value))

end UnaryOperator

end Tripwire
