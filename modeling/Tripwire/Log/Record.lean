import Tripwire.Value.Equality

/-!
Log records: who reports what, whether it went well, and the values at hand.
-/

namespace Tripwire

inductive LogLevel
  | trace | debug | info | warn | error
  deriving DecidableEq

namespace LogLevel

instance : Inhabited LogLevel := ⟨info⟩

def text : LogLevel → String
  | trace => "TRACE"
  | debug => "DEBUG"
  | info => "INFO"
  | warn => "WARN"
  | error => "ERROR"

def all : List LogLevel := [trace, debug, info, warn, error]

/-- The place among all levels, the least severe first. -/
def rank (level : LogLevel) : Nat := all.idxOf level

def ofText? (text : String) : Option LogLevel := all.find? fun level => level.text = text

end LogLevel

/-- A record before it has a number; the elapsed time is in nanoseconds. -/
structure Entry where
  source : String
  trigger : String
  success : Bool
  elapsed : Nat
  level : LogLevel
  context : NameMap Value
  deriving DecidableEq

structure Record where
  number : Nat
  entry : Entry
  deriving DecidableEq

end Tripwire
