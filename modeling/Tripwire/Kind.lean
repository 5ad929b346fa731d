import Tripwire.Text.Case

/-!
How strictly operands are converted, and the coarse kinds that conversion
distinguishes.
-/

namespace Tripwire

/-- Strict evaluation asks for numeric operands; loose evaluation converts
texts, booleans and null to numbers. -/
inductive Mode
  | strict
  | loose
  deriving DecidableEq

namespace Mode

instance : Inhabited Mode := ⟨strict⟩

def text : Mode → String
  | strict => "strict"
  | loose => "loose"

def ofText? (text : String) : Option Mode :=
  [strict, loose].find? fun mode => Text.sameLetters mode.text text

end Mode

inductive Kind
  | null
  | number
  | string
  | boolean
  | other
  deriving DecidableEq

namespace Kind

def text : Kind → String
  | null => "Null"
  | number => "Number"
  | string => "String"
  | boolean => "Boolean"
  | other => "Other"

def ofText? (text : String) : Option Kind :=
  [null, number, string, boolean, other].find? fun kind => kind.text = text

/-- Whether values of the kind convert to numbers in loose mode. -/
def canBeNumber (kind : Kind) : Bool := kind ≠ other

end Kind

end Tripwire
