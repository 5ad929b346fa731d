import Tripwire.Number.Layout
import Tripwire.Value.Number

/-!
The text of a value, and the value that a short literal text denotes.
-/

namespace Tripwire.Value

mutual

/-- The text of a value; strings stand without quotes. -/
def text : Value → String
  | null => "null"
  | boolean b => if b then "true" else "false"
  | integer n => toString n.toInt
  | float x => Float.valueText x.toFloat
  | string s => s
  | list items => "[" ++ String.intercalate ", " (itemTexts items) ++ "]"
  | map entries => "\x7b" ++ String.intercalate ", " (entryTexts entries) ++ "\x7d"

def itemTexts : List Value → List String
  | [] => []
  | item :: rest => item.text :: itemTexts rest

def entryTexts : {floor : Option String} → Entries floor → List String
  | _, .nil => []
  | _, .cons name value _ rest => (name ++ "=" ++ value.text) :: entryTexts rest

end

/-- Takes away a quote at both ends, if both are there. -/
def unquote? (quote : Char) (cs : List Char) : Option (List Char) :=
  match cs with
  | first :: rest =>
    if first = quote ∧ rest.getLast? = some quote then some rest.dropLast else none
  | [] => none

/-- The value of a literal text: a boolean in any case, `null`, a number, or else
the text itself without blanks and quotes around it. -/
def ofLiteral (text : String) : Value :=
  let cs := Text.trim text.toList
  let trimmed := String.ofList cs
  if Text.sameLetters trimmed "true" then boolean true
  else if Text.sameLetters trimmed "false" then boolean false
  else if trimmed = "null" then null
  else
    match ofNumericText? trimmed with
    | some number => number
    | none => string (String.ofList (((unquote? '"' cs).or (unquote? '\'' cs)).getD cs))

end Tripwire.Value
