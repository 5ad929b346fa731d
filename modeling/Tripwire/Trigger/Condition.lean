import Tripwire.Engine

/-!
Conditions: an expression of one engine, read as true or false.
-/

namespace Tripwire

structure Condition where
  engine : Nat
  compiled : Compiled
  deriving DecidableEq

namespace Condition

def ofSource (engines : Engines) (engine : Nat) (source : String) : Condition × Engines :=
  let (compiled, engines) := engines.compile engine source
  (⟨engine, compiled⟩, engines)

def text (condition : Condition) : String := condition.compiled.source

/-- The truth of a result: by the resolver in strict mode, by the rules in loose mode. -/
def truthOf (engine : Engine) (context : Context) (value : Value) : Except Crash Bool :=
  match context.mode with
  | .strict => .ok (engine.resolver.isTruthy value)
  | .loose => context.rules.toBoolean value

/-- The truth of the condition.  A crash of the evaluation becomes an error; one
in the conversion of its result does not. -/
def tryEvaluate (condition : Condition) (engines : Engines) (context : Context)
    (label : String) : Attempt EvalError Bool × Engines × Context :=
  let engine := engines.get condition.engine
  let (outcome, engine, after) := engine.evaluateCached condition.compiled context label
  let engines := engines.set condition.engine engine
  match outcome with
  | .ok lookup => (.guarded (truthOf engine after lookup.frozen.value), engines, after)
  | .error crash => (.error (.error (.failed crash.message)), engines, after)

/-- The truth of the condition, false where it fails. -/
def holds (condition : Condition) (engines : Engines) (context : Context) (label : String) :
    Except Crash Bool × Engines × Context :=
  let (outcome, engines, after) := condition.tryEvaluate engines context label
  match outcome with
  | .ok truth => (.ok truth, engines, after)
  | .error (.error _) => (.ok false, engines, after)
  | .error (.crash crash) => (.error crash, engines, after)

end Condition

end Tripwire
