import Tripwire.Engine

/-!
Sessions: an engine together with everything that shares it, and the operations
that a program may perform on them in any order.

Expressions, contexts and snapshots are held in lists and named by their place
there.  Nothing is ever dropped from a list, since what a program forgets it
may as well keep and never use again.
-/

namespace Tripwire

structure Session where
  engine : Engine
  expressions : List Compiled
  contexts : List Context
  snapshots : List Snapshot
  freshExpression : Nat
  freshRules : Nat

namespace Session

inductive Operation
  | compile (source : String)
  /-- An expression that was made without the engine. -/
  | bring (source : String) (root : Expr)
  | clearCompiled
  | clearCache
  | resetStats
  | lookUp (key : Key)
  | evict (key : Key)
  /-- A new context of the standard rules. -/
  | enter (mode : Mode)
  /-- Other rules for a context. -/
  | adopt (place : Nat) (rules : Rules)
  | clone (place : Nat)
  | freeze (place : Nat)
  | thaw (place : Nat)
  | set (place : Nat) (name : String) (value : Value)
  | remove (place : Nat) (name : String)
  | get (place : Nat) (name : String)
  | clearReads (place : Nat)
  | evaluate (place : Nat) (e : Expr)
  | tryEvaluate (place : Nat) (e : Expr)
  | evaluateCached (expression place : Nat) (label : String)

def start (engine : Engine) : Session := ⟨engine, [], [], [], 1, 1⟩

def onContext (s : Session) (place : Nat) (change : Context → Context) : Session :=
  { s with contexts := s.contexts.modify place change }

/-- Evaluates through the cache; a crash leaves its traces like any other end. -/
def evaluateCached (s : Session) (expression place : Nat) (label : String) : Session :=
  match s.expressions[expression]?, s.contexts[place]? with
  | some compiled, some context =>
    let (_, engine, context) := s.engine.evaluateCached compiled context label
    { s with engine := engine, contexts := s.contexts.set place context }
  | _, _ => s

def step (s : Session) : Operation → Session
  | .compile source =>
    let (compiled, engine, fresh) := s.engine.compile source s.freshExpression
    { s with
      engine := engine
      expressions := s.expressions ++ [compiled]
      freshExpression := fresh }
  | .bring source root =>
    { s with
      expressions := s.expressions ++ [⟨s.freshExpression, source, root⟩]
      freshExpression := s.freshExpression + 1 }
  | .clearCompiled => { s with engine := s.engine.clearCompiled }
  | .clearCache => { s with engine := s.engine.clearCache }
  | .resetStats => { s with engine := s.engine.resetStats }
  | .lookUp key => { s with engine.cache := (s.engine.cache.get key).2 }
  | .evict key => { s with engine.cache := (s.engine.cache.remove key).2 }
  | .enter mode => { s with contexts := s.contexts ++ [.new mode] }
  | .adopt place rules =>
    { s.onContext place (·.withRules rules s.freshRules) with freshRules := s.freshRules + 1 }
  | .clone place => { s with contexts := s.contexts ++ s.contexts[place]?.toList }
  | .freeze place =>
    { s with snapshots := s.snapshots ++ (s.contexts[place]?.map Context.snapshot).toList }
  | .thaw place =>
    { s with contexts := s.contexts ++ (s.snapshots[place]?.map Snapshot.toContext).toList }
  | .set place name value => s.onContext place (·.set name value)
  | .remove place name => s.onContext place (·.remove name)
  | .get place name => s.onContext place fun context => (context.get name).2
  | .clearReads place => s.onContext place .clearReads
  | .evaluate place e => s.onContext place fun context => (s.engine.evaluate e context).2
  | .tryEvaluate place e => s.onContext place fun context => (s.engine.tryEvaluate e context).2
  | .evaluateCached expression place label => s.evaluateCached expression place label

def run (s : Session) (operations : List Operation) : Session := operations.foldl step s

end Session

end Tripwire
