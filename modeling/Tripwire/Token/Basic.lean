import Tripwire.Number.Layout
import Tripwire.Operator
import Tripwire.Value.Basic

/-!
Tokens of the expression language and the places where they stand.
-/

namespace Tripwire

inductive Literal
  | null
  | boolean (value : Bool)
  | integer (value : Int64)
  | float (value : Double)
  | string (value : String)
  deriving DecidableEq

namespace Literal

def value : Literal → Value
  | null => .null
  | boolean b => .boolean b
  | integer n => .integer n
  | float x => .float x
  | string s => .string s

/-- The constant that denotes a value, if there is one. -/
def ofValue? : Value → Option Literal
  | .null => some null
  | .boolean b => some (boolean b)
  | .integer n => some (integer n)
  | .float x => some (float x)
  | .string s => some (string s)
  | .list _ | .map _ => none

@[simp] theorem ofValue?_value (literal : Literal) : ofValue? literal.value = some literal := by
  cases literal <;> rfl

/-- The text of a constant; a string stands in quotes, without escapes. -/
def text : Literal → String
  | null => "null"
  | boolean b => if b then "true" else "false"
  | integer n => toString n.toInt
  | float x => Layout.plain.text x.toFloat
  | string s => "\"" ++ s ++ "\""

end Literal

inductive Token
  | name (text : String)
  | symbol (symbol : Symbol)
  | paren (paren : Paren)
  | literal (literal : Literal)
  | blank (text : String)
  | finish
  deriving DecidableEq

namespace Token

/-- How a token is named in messages. -/
def text : Token → String
  | .name n => n
  | .symbol s => s.text
  | .paren p => p.text
  | .literal l => l.text
  | .blank _ => "whitespace"
  | .finish => "end of input"

instance : ToString Token := ⟨text⟩

def isBlank : Token → Bool
  | .blank _ => true
  | _ => false

end Token

/-- A place in a text: bytes before it, line and column counted from one. -/
structure Cursor where
  offset : Nat
  line : Nat
  column : Nat
  deriving DecidableEq

namespace Cursor

def start : Cursor := ⟨0, 1, 1⟩

def step (cursor : Cursor) (c : Char) : Cursor :=
  if c = '\n' then ⟨cursor.offset + c.utf8Size, cursor.line + 1, 1⟩
  else ⟨cursor.offset + c.utf8Size, cursor.line, cursor.column + 1⟩

def advance (cursor : Cursor) (cs : List Char) : Cursor := cs.foldl step cursor

theorem advance_append (cursor : Cursor) (cs ds : List Char) :
    cursor.advance (cs ++ ds) = (cursor.advance cs).advance ds :=
  List.foldl_append

end Cursor

/-- A token with the place where it starts and the offset where it ends. -/
structure Located where
  token : Token
  start : Cursor
  stop : Nat
  deriving DecidableEq

end Tripwire
