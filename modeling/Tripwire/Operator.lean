/-!
Operator symbols and the unary and binary operators that they stand for.
-/

namespace Tripwire

/-- An operator symbol of the expression language. -/
inductive Symbol
  | strictEqual | strictNotEqual | equal | notEqual
  | greaterEqual | lessEqual | and | or
  | greater | less | plus | minus | star | slash | percent | bang | tilde
  deriving DecidableEq

namespace Symbol

def text : Symbol → String
  | strictEqual => "==="
  | strictNotEqual => "!=="
  | equal => "=="
  | notEqual => "!="
  | greaterEqual => ">="
  | lessEqual => "<="
  | and => "&&"
  | or => "||"
  | greater => ">"
  | less => "<"
  | plus => "+"
  | minus => "-"
  | star => "*"
  | slash => "/"
  | percent => "%"
  | bang => "!"
  | tilde => "~"

/-- Every symbol, longer ones first. -/
def all : List Symbol :=
  [strictEqual, strictNotEqual, equal, notEqual, greaterEqual, lessEqual, and, or,
   greater, less, plus, minus, star, slash, percent, bang, tilde]

theorem mem_all (symbol : Symbol) : symbol ∈ all := by
  cases symbol <;> decide

def ofText? (text : String) : Option Symbol := all.find? fun symbol => symbol.text = text

end Symbol

inductive UnaryOperator
  | plus | minus | not | complement
  deriving DecidableEq

namespace UnaryOperator

def symbol : UnaryOperator → Symbol
  | plus => .plus
  | minus => .minus
  | not => .bang
  | complement => .tilde

def text (op : UnaryOperator) : String := op.symbol.text

def all : List UnaryOperator := [plus, minus, not, complement]

def ofSymbol? (symbol : Symbol) : Option UnaryOperator := all.find? fun op => op.symbol = symbol

def ofText? (text : String) : Option UnaryOperator := all.find? fun op => op.text = text

end UnaryOperator

/-- How tightly a binary operator binds, loosest first. -/
inductive Level
  | or | and | equality | relation | sum | product
  deriving DecidableEq

inductive BinaryOperator
  | add | subtract | multiply | divide | remainder
  | equal | notEqual | strictEqual | strictNotEqual
  | less | greater | lessEqual | greaterEqual
  | and | or
  deriving DecidableEq

namespace BinaryOperator

def symbol : BinaryOperator → Symbol
  | add => .plus
  | subtract => .minus
  | multiply => .star
  | divide => .slash
  | remainder => .percent
  | equal => .equal
  | notEqual => .notEqual
  | strictEqual => .strictEqual
  | strictNotEqual => .strictNotEqual
  | less => .less
  | greater => .greater
  | lessEqual => .lessEqual
  | greaterEqual => .greaterEqual
  | and => .and
  | or => .or

def text (op : BinaryOperator) : String := op.symbol.text

def all : List BinaryOperator :=
  [add, subtract, multiply, divide, remainder, equal, notEqual, strictEqual, strictNotEqual,
   less, greater, lessEqual, greaterEqual, and, or]

def level : BinaryOperator → Level
  | add | subtract => .sum
  | multiply | divide | remainder => .product
  | equal | notEqual | strictEqual | strictNotEqual => .equality
  | less | greater | lessEqual | greaterEqual => .relation
  | and => .and
  | or => .or

def isArithmetic (op : BinaryOperator) : Bool := op.level = .sum || op.level = .product

def isRelational (op : BinaryOperator) : Bool := op.level = .relation

def isEquality (op : BinaryOperator) : Bool := op.level = .equality

def isLogical (op : BinaryOperator) : Bool := op.level = .and || op.level = .or

def ofSymbol? (symbol : Symbol) : Option BinaryOperator := all.find? fun op => op.symbol = symbol

def ofText? (text : String) : Option BinaryOperator := all.find? fun op => op.text = text

end BinaryOperator

/-- An opening or a closing parenthesis. -/
inductive Paren
  | opening | closing
  deriving DecidableEq

namespace Paren

def text : Paren → String
  | opening => "("
  | closing => ")"

def ofText? (text : String) : Option Paren :=
  [opening, closing].find? fun paren => paren.text = text

end Paren

end Tripwire
