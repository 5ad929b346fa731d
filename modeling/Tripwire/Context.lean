import Tripwire.Expr.Evaluate

/-!
Contexts: the variables, mode and rules of an evaluation together with the log
of the names that were read, and frozen snapshots of them.
-/

namespace Tripwire

/-- A live environment; `rulesId` tells rule sets apart, zero being the standard one. -/
structure Context where
  bindings : NameMap Value
  mode : Mode
  rules : Rules
  rulesId : Nat
  reads : NameSet

namespace Context

/-- A context of the standard rules in which nothing was read yet. -/
def ofBindings (mode : Mode) (bindings : NameMap Value) : Context :=
  ⟨bindings, mode, .standard, 0, NameMap.empty⟩

def new (mode : Mode) : Context := ofBindings mode .empty

instance : Inhabited Context := ⟨new .strict⟩

def scope (context : Context) : Scope := ⟨context.bindings, context.mode, context.rules⟩

/-- The same context under other rules, told apart by an identity of their own. -/
def withRules (context : Context) (rules : Rules) (id : Nat) : Context :=
  { context with rules := rules, rulesId := id }

/-- The value of a variable, null if there is none, without a trace. -/
def value (context : Context) (name : String) : Value := context.scope.value name

def recordAll (context : Context) (names : List String) : Context :=
  { context with reads := context.reads.addAll names }

/-- Reads a variable and records that it was read, whether or not it exists. -/
def get (context : Context) (name : String) : Value × Context :=
  (context.value name, context.recordAll [name])

def set (context : Context) (name : String) (value : Value) : Context :=
  { context with bindings := context.bindings.insert name value }

def remove (context : Context) (name : String) : Context :=
  { context with bindings := context.bindings.erase name }

def clearReads (context : Context) : Context := { context with reads := NameMap.empty }

/-- The present value of every name that was read. -/
def dependencies (context : Context) : NameMap Value :=
  context.reads.mapValues fun name _ => context.value name

/-- Evaluates with failing operators as false. -/
def evaluate (resolver : Resolver) (context : Context) (e : Expr) :
    Except Crash Value × Context :=
  let evaluation := e.contained resolver context.scope
  let outcome :=
    match evaluation.outcome with
    | .ok value => .ok value
    | .error (.error _) => .ok (.boolean false)
    | .error (.crash crash) => .error crash
  (outcome, context.recordAll evaluation.reads)

/-- Evaluates up to the first error. -/
def tryEvaluate (resolver : Resolver) (context : Context) (e : Expr) :
    Attempt EvalError Value × Context :=
  let evaluation := e.strictly resolver context.scope
  (evaluation.outcome.mapError .coercion, context.recordAll evaluation.reads)

end Context

/-- A frozen context, without the log of reads. -/
structure Snapshot where
  bindings : NameMap Value
  mode : Mode
  rules : Rules
  rulesId : Nat

def Context.snapshot (context : Context) : Snapshot :=
  ⟨context.bindings, context.mode, context.rules, context.rulesId⟩

/-- A live context that starts from a frozen one. -/
def Snapshot.toContext (snapshot : Snapshot) : Context :=
  ⟨snapshot.bindings, snapshot.mode, snapshot.rules, snapshot.rulesId, NameMap.empty⟩

end Tripwire
