import Tripwire.Expr.Nesting
import Tripwire.Grammar.Expression
import Tripwire.Token.Scan

/-!
From text to tree: scan, drop blanks, bound the nesting, run the grammar, and
point at the place where it went wrong.
-/

namespace Tripwire

/-- Why a text is no expression. -/
inductive ParseError
  | scan (cause : ScanError)
  | mismatch (source : String) (line column : Nat) (cause : Mismatch)
  | empty
  | excess (kind : Nesting.Excess)
  deriving DecidableEq

namespace ParseError

def message : ParseError → String
  | scan cause => cause.message
  | mismatch source line column cause =>
    "Syntax error in `" ++ source ++ "` at line " ++ toString line ++ ", column " ++
      toString column ++ ": " ++ cause.message
  | empty => "Empty expression"
  | excess .tooDeep => s!"Expression nests deeper than {Nesting.maxDepth} levels"
  | excess .tooManyOperators =>
    s!"Expression has more than {Nesting.maxOperators} binary operators"

end ParseError

namespace Expr

/-- The line and column of a token, or of the beginning. -/
def placeOf (located : List Located) (position? : Option Nat) : Nat × Nat :=
  match position?.bind (located[·]?) with
  | some token => (token.start.line, token.start.column)
  | none => (1, 1)

/-- The tree of a row of tokens without blanks. -/
def ofTokens (source : String) (located : List Located) : Except ParseError Expr :=
  let tokens := located.map (·.token)
  if tokens = [.finish] then .error .empty
  else
    match Nesting.check tokens with
    | .error kind => .error (.excess kind)
    | .ok () =>
      match Grammar.runDeep Grammar.complete tokens.toArray 0 with
      | .ok (_, e) => .ok e
      | .error cause =>
        let (line, column) := placeOf located cause.position?
        .error (.mismatch source line column cause)

/-- The tree of a text. -/
def parse (text : String) : Except ParseError Expr :=
  match (scan .start text.toList).1 with
  | .error cause => .error (.scan cause)
  | .ok located => ofTokens text (located.filter fun l => !l.token.isBlank)

end Expr

end Tripwire
