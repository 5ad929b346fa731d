import Tripwire.Kind

/-!
Failures.  A step of the library can fail with an error of its own or be cut
short by a crash in foreign code; `Attempt` keeps the two apart.
-/

namespace Tripwire

inductive ErrorKind
  | malformed | typeMismatch | evaluation | dispatch
  deriving DecidableEq

namespace ErrorKind

def text : ErrorKind → String
  | malformed => "SyntaxError"
  | typeMismatch => "TypeMismatch"
  | evaluation => "EvaluationFailed"
  | dispatch => "DispatchTaskFailed"

def all : List ErrorKind := [malformed, typeMismatch, evaluation, dispatch]

def ofText? (text : String) : Option ErrorKind := all.find? fun kind => kind.text = text

end ErrorKind

/-- An abrupt end of foreign code, which may leave a text. -/
structure Crash where
  text : Option String
  deriving DecidableEq

def Crash.message (crash : Crash) : String :=
  crash.text.getD "panic with a non-string payload"

/-- Why a step gave no value. -/
inductive Fault (ε : Type)
  | error (error : ε)
  | crash (crash : Crash)
  deriving DecidableEq

/-- A value, an error or a crash. -/
abbrev Attempt (ε α : Type) := Except (Fault ε) α

namespace Attempt

variable {ε δ α β : Type}

/-- A step that may crash but raises no error. -/
def guarded : Except Crash α → Attempt ε α
  | .ok a => .ok a
  | .error crash => .error (.crash crash)

/-- A step that may raise an error but does not crash. -/
def checked : Except ε α → Attempt ε α
  | .ok a => .ok a
  | .error error => .error (.error error)

def mapError (f : ε → δ) : Attempt ε α → Attempt δ α
  | .ok a => .ok a
  | .error (.error error) => .error (.error (f error))
  | .error (.crash crash) => .error (.crash crash)

end Attempt

inductive CoercionError
  /-- An operator that does not apply to operands of the given kinds. -/
  | mismatch (operator : String) (left right : Kind)
  /-- A value, shown as text, that does not convert to a kind. -/
  | unconvertible (value : String) (target : Kind)
  deriving DecidableEq

namespace CoercionError

def message : CoercionError → String
  | mismatch operator left right =>
    s!"Operator {operator} not applicable to {left.text} and {right.text}"
  | unconvertible value target => s!"Cannot coerce {value} to {target.text}"

end CoercionError

inductive EvalError
  | coercion (error : CoercionError)
  | failed (message : String)
  deriving DecidableEq

namespace EvalError

def message : EvalError → String
  | coercion error => error.message
  | failed message => s!"Evaluation failed: {message}"

def kind : EvalError → ErrorKind
  | coercion _ => .typeMismatch
  | failed _ => .evaluation

end EvalError

end Tripwire
