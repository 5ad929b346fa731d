import Tripwire.Expr.Basic
import Tripwire.Grammar.Rule
import Tripwire.Token.Basic

/-!
The expression grammar over tokens.  Six tiers of binary operators, each
associating to the left, stand above unary operators and primaries.  The rules
recur through parentheses and unary operators only; `depth` bounds how many of
them may be open at once.
-/

namespace Tripwire

/-- How a tier is named in messages. -/
def Level.ruleName : Level → String
  | .or => "logical or"
  | .and => "logical and"
  | .equality => "equality"
  | .relation => "relational"
  | .sum => "additive"
  | .product => "multiplicative"

namespace Grammar

def literal : Rule Token Expr :=
  .satisfy (fun | .literal l => some (.constant l.value) | _ => none) "literal"

def identifier : Rule Token Expr :=
  .satisfy (fun | .name n => some (.named n) | _ => none) "identifier"

def unaryOperator : Rule Token UnaryOperator :=
  .satisfy (fun | .symbol s => UnaryOperator.ofSymbol? s | _ => none) "unary operator"

def operator (level : Level) : Rule Token BinaryOperator :=
  .satisfy
    (fun
      | .symbol s => (BinaryOperator.ofSymbol? s).filter fun op => op.level = level
      | _ => none)
    "binary operator"

def joinLeft (first : Expr) (rest : List (BinaryOperator × Expr)) : Expr :=
  rest.foldl (fun left (op, right) => .binary op left right) first

/-- Operands joined by the operators of one tier. -/
def tier (level : Level) (operand : Rule Token Expr) : Rule Token Expr :=
  .within level.ruleName <|
    .map (fun (first, rest) => joinLeft first rest)
      (.pair operand (.many (.pair (operator level) operand)))

/-- All tiers above a rule for the innermost operands. -/
def tiers (operand : Rule Token Expr) : Rule Token Expr :=
  tier .or <| tier .and <| tier .equality <| tier .relation <| tier .sum <| tier .product operand

def expressionOver (operand : Rule Token Expr) : Rule Token Expr :=
  .within "expression" (tiers operand)

def paren (p : Paren) : Rule Token Unit := .unit (.equal (.paren p))

def parenthesized (inner : Rule Token Expr) : Rule Token Expr :=
  .within "parenthesized expression" (.delimited (paren .opening) inner (paren .closing))

def primary (inner : Rule Token Expr) : Rule Token Expr :=
  .within "primary" (.choice [literal, identifier, parenthesized inner])

/-- A unary operator before an operand, or a primary; the operand and what stands
in parentheses are one level deeper. -/
def unary : (depth : Nat) → Rule Token Expr
  | 0 => .within "unary" .none
  | depth + 1 =>
    .within "unary" <| .choice
      [.map (fun (op, operand) => .unary op operand)
          (.pair unaryOperator (.deferred fun _ => unary depth)),
        primary (.deferred fun _ => expressionOver (unary depth))]

/-- An expression with at most `depth` levels, the innermost operand counted as one. -/
def expression (depth : Nat) : Rule Token Expr := expressionOver (unary depth)

def complete (depth : Nat) : Rule Token Expr :=
  .within "complete expression" <|
    .map (fun (e, _) => e) (.pair (expression depth) (.unit (.equal .finish)))

/-- Runs a rule with more depth than a row of tokens can use. -/
def runDeep (rule : Nat → Rule Token Expr) (tokens : Array Token) (position : Nat) :
    Rule.Outcome Expr :=
  (rule (tokens.size + 1)).run tokens position

end Grammar

end Tripwire
