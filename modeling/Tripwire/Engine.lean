import Tripwire.Cache.Frozen
import Tripwire.Cache.Key
import Tripwire.Cache.Lru
import Tripwire.Cache.Stats
import Tripwire.Config

/-!
Engines: the compiled texts, the cache of results and the counters that the
conditions of an engine share.  `Engines` holds several engines, which draw the
identities of their compiled expressions from one counter.
-/

namespace Tripwire

structure Engine where
  mode : Mode
  resolver : Resolver
  compiled : NameMap Compiled
  cache : Lru Key Frozen
  stats : Stats

/-- A cached or a new result. -/
structure Lookup where
  frozen : Frozen
  hit : Bool

namespace Engine

/-- How many results an engine keeps unless told otherwise. -/
def defaultCapacity : Nat := 1024

def ofParts (mode : Mode) (capacity : Nat) (resolver : Resolver) : Engine :=
  ⟨mode, resolver, .empty, .new capacity, .empty⟩

def new (mode : Mode) : Engine := ofParts mode defaultCapacity .standard

def ofConfig (config : Config) : Engine := ofParts config.mode config.cacheCapacity .standard

instance : Inhabited Engine := ⟨new .strict⟩

/-- A context in the mode of the engine. -/
def newContext (engine : Engine) : Context := .new engine.mode

def compiledCount (engine : Engine) : Nat := engine.compiled.size

/-- The compiled form of a text: the known one, or a new one with the fresh
identity.  The last component is the identity that is fresh afterwards. -/
def compile (engine : Engine) (source : String) (fresh : Nat) : Compiled × Engine × Nat :=
  match engine.compiled.get? source with
  | some compiled => (compiled, engine, fresh)
  | none =>
    let compiled := Compiled.ofSource source fresh
    (compiled, { engine with compiled := engine.compiled.insert source compiled }, fresh + 1)

def clearCompiled (engine : Engine) : Engine := { engine with compiled := .empty }

def resetStats (engine : Engine) : Engine := { engine with stats := .empty }

def clearCache (engine : Engine) : Engine := { engine with cache := engine.cache.clear }

/-- Evaluates without the cache. -/
def evaluate (engine : Engine) (e : Expr) (context : Context) : Except Crash Value × Context :=
  context.evaluate engine.resolver e

def tryEvaluate (engine : Engine) (e : Expr) (context : Context) :
    Attempt EvalError Value × Context :=
  context.tryEvaluate engine.resolver e

/-- Evaluates anew and stores the result; a crash stores and counts nothing. -/
def refresh (engine : Engine) (compiled : Compiled) (context : Context) (label : String) :
    Except Crash Lookup × Engine × Context :=
  match engine.evaluate compiled.root context.clearReads with
  | (.ok value, after) =>
    let frozen := Frozen.capture value after
    (.ok ⟨frozen, false⟩,
      { engine with
        cache := engine.cache.put (.ofContext compiled context) frozen
        stats := engine.stats.recordMiss label },
      after)
  | (.error crash, after) => (.error crash, engine, after)

/-- The cached result where its dependencies still match, else a new one.  The
label names the caller among the counters. -/
def evaluateCached (engine : Engine) (compiled : Compiled) (context : Context) (label : String) :
    Except Crash Lookup × Engine × Context :=
  let (found, cache) := engine.cache.get (.ofContext compiled context)
  let engine := { engine with cache := cache }
  match found with
  | some frozen =>
    if frozen.isOutdated context.bindings then engine.refresh compiled context label
    else
      (.ok ⟨frozen, true⟩, { engine with stats := engine.stats.recordHit label }, context)
  | none => engine.refresh compiled context label

end Engine

/-- Several engines, by their place, and the next identity of an expression. -/
structure Engines where
  all : List Engine
  fresh : Nat

namespace Engines

def empty : Engines := ⟨[], 1⟩

def get (engines : Engines) (place : Nat) : Engine := engines.all.getD place default

def set (engines : Engines) (place : Nat) (engine : Engine) : Engines :=
  { engines with all := engines.all.set place engine }

/-- Adds an engine and tells its place. -/
def add (engines : Engines) (engine : Engine) : Nat × Engines :=
  (engines.all.length, { engines with all := engines.all ++ [engine] })

/-- Compiles a text on one engine. -/
def compile (engines : Engines) (place : Nat) (source : String) : Compiled × Engines :=
  let (compiled, engine, fresh) := (engines.get place).compile source engines.fresh
  (compiled, { engines.set place engine with fresh := fresh })

end Engines

end Tripwire
