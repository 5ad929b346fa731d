import Tripwire.Number.Decimal
import Tripwire.Operator
import Tripwire.Text.Blank
import Tripwire.Value.Basic

/-!
Values as numbers: which values count as one, how two of them compare, and
arithmetic that stays exact on integers while the result is one.
-/

namespace Tripwire.Value

def isNumericChar (c : Char) : Bool :=
  c.isDigit || c = '.' || c = '-' || c = '+' || c = 'e' || c = 'E'

/-- The number that a text spells, blanks around it aside; a point makes it a float. -/
def ofNumericText? (text : String) : Option Value :=
  let cs := Text.trim text.toList
  if !cs.all isNumericChar || !cs.any Char.isDigit then none
  else if cs.contains '.' then (Decimal.readFloat? cs).map fun x => float x
  else
    match Decimal.readInteger? cs with
    | some n => some (integer n)
    | none => (Decimal.readFloat? cs).map fun x => float x

def toFloat? : Value → Option Float
  | integer n => some (Binary64.ofInt64 n)
  | float x => some x.toFloat
  | _ => none

/-- A number, or the number that a text spells. -/
def numericLike? : Value → Option Value
  | integer n => some (integer n)
  | float x => some (float x)
  | string text => ofNumericText? text
  | _ => none

/-- A float with an integer value in range becomes that integer. -/
def normalize : Value → Value
  | float x =>
    match Binary64.toInt64? x.toFloat with
    | some n => integer n
    | none => float x
  | value => value

/-- Truth as the logical operators see it: null, zero and NaN are false. -/
def truthy : Value → Bool
  | null => false
  | boolean b => b
  | integer n => n ≠ 0
  | float x => !(x.toFloat == 0) && !x.toFloat.isNaN
  | _ => true

/-- Truth as a condition sees it: also an empty text and the text `false` are false. -/
def isTruthy : Value → Bool
  | string text => !text.isEmpty && !Text.sameLetters text "false"
  | value => value.truthy

def numericCompare? : Value → Value → Option Ordering
  | integer a, integer b => some (compare a.toInt b.toInt)
  | a, b =>
    match a.toFloat?, b.toFloat? with
    | some x, some y => Binary64.compare? x y
    | _, _ => none

def wholeResult? (op : BinaryOperator) (a b : Int64) : Option Int64 :=
  match op with
  | .add => Integer.add? a b
  | .subtract => Integer.subtract? a b
  | .multiply => Integer.multiply? a b
  | .divide => Integer.divide? a b
  | .remainder => Integer.remainder? a b
  | _ => none

/-- The rounded result on two floats; division by zero gives NaN. -/
def rounded (op : BinaryOperator) (x y : Float) : Float :=
  match op with
  | .add => x + y
  | .subtract => x - y
  | .multiply => x * y
  | .divide => if y == 0 then Binary64.nan else x / y
  | .remainder => if y == 0 then Binary64.nan else Binary64.remainder x y
  | _ => Binary64.nan

/-- The result of rounded arithmetic, in which other values count as zero. -/
def inexact (op : BinaryOperator) (a b : Value) : Value :=
  normalize (float (rounded op (a.toFloat?.getD 0) (b.toFloat?.getD 0)))

/-- Arithmetic on two numbers: exact on integers where that is possible, else rounded. -/
def arithmetic (op : BinaryOperator) : Value → Value → Value
  | integer a, integer b =>
    match wholeResult? op a b with
    | some n => integer n
    | none => inexact op (integer a) (integer b)
  | a, b => inexact op a b

end Tripwire.Value
