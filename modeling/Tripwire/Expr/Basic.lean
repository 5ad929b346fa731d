import Tripwire.Operator
import Tripwire.Value.Equality
import Tripwire.Value.Text

/-!
Expression trees, their variables and their text.
-/

namespace Tripwire

/-- An expression tree; a constant carries its kind, and a variable may carry one. -/
inductive Expr
  | literal (value : Value) (kind : Kind)
  | var (name : String) (expected : Option Kind)
  | unary (op : UnaryOperator) (operand : Expr)
  | binary (op : BinaryOperator) (left right : Expr)
  deriving DecidableEq

namespace Expr

def constant (value : Value) : Expr := literal value value.kind

def named (name : String) : Expr := var name none

/-- What stands for a text that is no expression. -/
def constantFalse : Expr := constant (.boolean false)

instance : Inhabited Expr := ⟨constantFalse⟩

/-- The kind of the result, where the topmost node fixes it. -/
def staticKind? : Expr → Option Kind
  | literal _ kind => some kind
  | var _ expected => expected
  | unary op _ => if op = .not then some .boolean else none
  | binary op _ _ => if op.isArithmetic then none else some .boolean

/-- The names of a tree from left to right, with repetitions. -/
def names : Expr → List String
  | literal _ _ => []
  | var name _ => [name]
  | unary _ operand => operand.names
  | binary _ left right => left.names ++ right.names

def addName (seen : List String) (name : String) : List String :=
  if name ∈ seen then seen else seen ++ [name]

/-- The names of a tree, each where it is seen first. -/
def distinctNames (e : Expr) : List String := e.names.foldl addName []

def escape (c : Char) : List Char :=
  match c with
  | '\n' => ['\\', 'n']
  | '\t' => ['\\', 't']
  | '"' => ['\\', '"']
  | '\\' => ['\\', '\\']
  | c => [c]

def quote (text : String) : List Char := '"' :: text.toList.flatMap escape ++ ['"']

/-- The characters of a tree with parentheses around every operator. -/
def render : Expr → List Char
  | literal (.string s) _ => quote s
  | literal value _ => value.text.toList
  | var name _ => name.toList
  | unary op operand => '(' :: op.text.toList ++ operand.render ++ [')']
  | binary op left right =>
    '(' :: left.render ++ ' ' :: op.text.toList ++ ' ' :: right.render ++ [')']

def text (e : Expr) : String := String.ofList e.render

end Expr

end Tripwire
