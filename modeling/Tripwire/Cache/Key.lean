import Tripwire.Context
import Tripwire.Expr.Compiled

/-!
Cache keys: an expression by its identity, the mode, and the rules by theirs.
-/

namespace Tripwire

structure Key where
  expression : Nat
  mode : Mode
  rules : Nat
  deriving DecidableEq

namespace Key

/-- The key under the standard rules. -/
def standard (compiled : Compiled) (mode : Mode) : Key := ⟨compiled.id, mode, 0⟩

/-- The key under the mode and the rules of a context. -/
def ofContext (compiled : Compiled) (context : Context) : Key :=
  ⟨compiled.id, context.mode, context.rulesId⟩

def text (key : Key) : String :=
  let rules := if key.rules = 0 then "" else s!"/c{key.rules}"
  s!"#{key.expression}/{key.mode.text}" ++ rules

end Key

end Tripwire
