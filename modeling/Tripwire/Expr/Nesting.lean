import Tripwire.Token.Basic

/-!
Bounds on how deep an expression nests and how many binary operators it has,
checked on tokens before any tree is built.
-/

namespace Tripwire

/-- What is open after some tokens. -/
structure Nesting where
  /-- The unary operators that wait for an operand at the innermost level. -/
  waiting : Nat
  /-- The unary operators that wait at the levels around it. -/
  outer : List Nat
  /-- The open parentheses and waiting unary operators. -/
  depth : Nat
  operators : Nat
  operandNext : Bool
  deriving DecidableEq

namespace Nesting

/-- The deepest stack of open parentheses and waiting unary operators. -/
def maxDepth : Nat := 64

def maxOperators : Nat := 512

inductive Excess
  | tooDeep
  | tooManyOperators
  deriving DecidableEq

def start : Nesting := ⟨0, [], 0, 0, true⟩

/-- A finished operand takes the unary operators that wait for it. -/
def closeOperand (n : Nesting) : Nesting :=
  { n with waiting := 0, depth := n.depth - n.waiting, operandNext := false }

def leave (n : Nesting) : Nesting :=
  match n.outer with
  | [] => n
  | waiting :: outer => { n with waiting, outer, depth := n.depth - (n.waiting + 1) }

def step (n : Nesting) : Token → Nesting
  | .symbol _ =>
    if n.operandNext then { n with waiting := n.waiting + 1, depth := n.depth + 1 }
    else { n with operators := n.operators + 1, operandNext := true }
  | .paren .opening =>
    { n with waiting := 0, outer := n.waiting :: n.outer, depth := n.depth + 1, operandNext := true }
  | .paren .closing => n.leave.closeOperand
  | _ => n.closeOperand

/-- Follows tokens up to the end of the input and reports the first excess. -/
def checkFrom (n : Nesting) : List Token → Except Excess Unit
  | [] => .ok ()
  | token :: rest =>
    if token = .finish then .ok ()
    else
      let next := n.step token
      if maxDepth < next.depth then .error .tooDeep
      else if maxOperators < next.operators then .error .tooManyOperators
      else checkFrom next rest

def check (tokens : List Token) : Except Excess Unit := checkFrom start tokens

end Nesting

end Tripwire
