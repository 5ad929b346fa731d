import Tripwire.Json.Number
import Tripwire.Json.Reader
import Tripwire.Number.Layout
import Tripwire.Value.Basic

/-!
Values as JSON: reading a document as a value and writing a value as text.
-/

namespace Tripwire.Value

/-- An integer in range, else a float. -/
def ofNumeral? (numeral : Numeral) : Option Value :=
  match numeral.toInt?.bind Integer.narrow? with
  | some n => some (integer n)
  | none => numeral.toFloat?.map fun x => float x

mutual

/-- The value of a document; none for a number too large or a broken text. -/
def ofDocument? : Json → Option Value
  | .null => some null
  | .boolean b => some (boolean b)
  | .number numeral => ofNumeral? numeral
  | .string text => text.map string
  | .array items => (ofItems? items).map list
  | .object entries => (ofEntryList? entries).map ofEntries

def ofItems? : List Json → Option (List Value)
  | [] => some []
  | item :: rest => do
    let item ← ofDocument? item
    let rest ← ofItems? rest
    some (item :: rest)

def ofEntryList? : List (Option String × Json) → Option (List (String × Value))
  | [] => some []
  | (name, value) :: rest => do
    let name ← name
    let value ← ofDocument? value
    let rest ← ofEntryList? rest
    some ((name, value) :: rest)

end

/-- The value that a JSON text spells. -/
def ofJson? (text : String) : Option Value :=
  (Json.read? text).bind fun document =>
    if document.depth ≤ Json.maxDepth then ofDocument? document else none

mutual

/-- A value as JSON text without spaces. -/
def json : Value → String
  | null => "null"
  | boolean b => if b then "true" else "false"
  | integer n => toString n.toInt
  | float x => Layout.document.text x.toFloat
  | string s => Json.quote s
  | list items => "[" ++ String.intercalate "," (itemJsons items) ++ "]"
  | map entries => "\x7b" ++ String.intercalate "," (entryJsons entries) ++ "\x7d"

def itemJsons : List Value → List String
  | [] => []
  | item :: rest => item.json :: itemJsons rest

def entryJsons : {floor : Option String} → Entries floor → List String
  | _, .nil => []
  | _, .cons name value _ rest => (Json.quote name ++ ":" ++ value.json) :: entryJsons rest

end

end Tripwire.Value
