import Tripwire.Coercion.Error
import Tripwire.Value.Equality
import Tripwire.Value.Text

/-!
Conversion rules.  `Coercion` holds the standard rules as plain functions;
`Rules` is what an evaluation is given, and any of its functions may crash.
-/

namespace Tripwire

namespace Coercion

/-- Booleans count as one and zero, texts as the number they spell, all else as zero. -/
def toNumber : Value → Value
  | .integer n => .integer n
  | .float x => .float x
  | .boolean b => .integer (if b then 1 else 0)
  | .string text => (Value.ofNumericText? text).getD (.integer 0)
  | _ => .integer 0

/-- A text is true if it spells so; other values keep their own truth. -/
def toBoolean : Value → Bool
  | .string text =>
    let trimmed := String.ofList (Text.trim text.toList)
    Text.sameLetters trimmed "true" || trimmed = "1" || Text.sameLetters trimmed "yes"
  | value => value.truthy

/-- Arithmetic for operands that are numbers or spell one. -/
def compute (op : BinaryOperator) (left right : Value) : Except CoercionError Value :=
  match left.numericLike?, right.numericLike? with
  | some a, some b => .ok (Value.arithmetic op a b)
  | _, _ => .error (.mismatch op.text left.kind right.kind)

/-- The sum of operands that are numbers or spell one, else their texts in a row. -/
def add (left right : Value) : Value :=
  match left.numericLike?, right.numericLike? with
  | some a, some b => Value.arithmetic .add a b
  | _, _ => .string (left.text ++ right.text)

/-- The same kind and an equal value; numbers are normalized first. -/
def strictEquals : Value → Value → Bool
  | .null, .null => true
  | .null, _ => false
  | _, .null => false
  | left, right =>
    if left.isNumber && right.isNumber then
      match left.normalize, right.normalize with
      | .integer a, .integer b => a = b
      | .float a, .float b => a.toFloat == b.toFloat
      | _, _ => false
    else left.kind = right.kind && left.alike right

def isBoolean : Value → Bool
  | .boolean _ => true
  | _ => false

/-- Numbers by their order, a boolean and anything by truth, else by text. -/
def looseEquals (left right : Value) : Bool :=
  if left.isNumber && right.isNumber then left.numericCompare? right = some .eq
  else if isBoolean left || isBoolean right then left.truthy = right.truthy
  else if left.isNull || right.isNull then left.isNull && right.isNull
  else left.text = right.text

/-- The numeric order, in which a value that is no number counts as zero. -/
def compare? (left right : Value) : Option Ordering :=
  (left.numericLike?.getD (.integer 0)).numericCompare? (right.numericLike?.getD (.integer 0))

end Coercion

/-- The conversions and the permissive operators of an evaluation. -/
structure Rules where
  toNumber : Value → Except Crash Value
  toBoolean : Value → Except Crash Bool
  toText : Value → Except Crash String
  add : Value → Value → Attempt CoercionError Value
  subtract : Value → Value → Attempt CoercionError Value
  multiply : Value → Value → Attempt CoercionError Value
  divide : Value → Value → Attempt CoercionError Value
  remainder : Value → Value → Attempt CoercionError Value
  strictEquals : Value → Value → Except Crash Bool
  looseEquals : Value → Value → Except Crash Bool
  compare : Value → Value → Except Crash (Option Ordering)

namespace Rules

/-- The standard rules, which never crash. -/
def standard : Rules where
  toNumber value := .ok (Coercion.toNumber value)
  toBoolean value := .ok (Coercion.toBoolean value)
  toText value := .ok value.text
  add left right := .ok (Coercion.add left right)
  subtract left right := .checked (Coercion.compute .subtract left right)
  multiply left right := .checked (Coercion.compute .multiply left right)
  divide left right := .checked (Coercion.compute .divide left right)
  remainder left right := .checked (Coercion.compute .remainder left right)
  strictEquals left right := .ok (Coercion.strictEquals left right)
  looseEquals left right := .ok (Coercion.looseEquals left right)
  compare left right := .ok (Coercion.compare? left right)

instance : Inhabited Rules := ⟨standard⟩

end Rules

end Tripwire
