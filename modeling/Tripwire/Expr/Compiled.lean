import Tripwire.Expr.Parse

/-!
Compiled expressions: a tree with the text it came from and an identity of its own.
-/

namespace Tripwire

structure Compiled where
  id : Nat
  source : String
  root : Expr
  deriving DecidableEq

namespace Compiled

instance : Inhabited Compiled := ⟨⟨0, "", .constantFalse⟩⟩

/-- The tree of a text; a text that is no expression counts as constantly false. -/
def rootOf (source : String) : Expr :=
  match Expr.parse source with
  | .ok root => root
  | .error _ => .constantFalse

def ofSource (source : String) (id : Nat) : Compiled := ⟨id, source, rootOf source⟩

end Compiled

end Tripwire
