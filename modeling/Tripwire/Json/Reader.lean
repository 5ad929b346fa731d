import Tripwire.Json.Basic

/-!
Reading JSON text.  Each reader takes what it reads off the front of the text
and returns the rest; `Json.read?` accepts a whole text or nothing.
-/

namespace Tripwire.Json

def isSpace (c : Char) : Bool := c = ' ' || c = '\t' || c = '\n' || c = '\r'

def skipSpace (cs : List Char) : List Char := cs.dropWhile isSpace

def word? (word : List Char) (cs : List Char) : Option (List Char) :=
  if word.isPrefixOf cs then some (cs.drop word.length) else none

/-- Digits without a zero in front. -/
def whole? (cs : List Char) : Option (List Char × List Char) :=
  match Decimal.digitRun cs with
  | ([], _) => none
  | (['0'], rest) => some (['0'], rest)
  | ('0' :: _, _) => none
  | (digits, rest) => some (digits, rest)

/-- A point and digits, if there is a point. -/
def fraction? : List Char → Option (Option (List Char) × List Char)
  | '.' :: rest =>
    match Decimal.digitRun rest with
    | ([], _) => none
    | (digits, rest) => some (some digits, rest)
  | rest => some (none, rest)

/-- A power of ten, if there is an exponent mark. -/
def exponent? (cs : List Char) : Option (Option Int × List Char) :=
  match cs with
  | c :: rest =>
    if c = 'e' ∨ c = 'E' then
      let (negative, rest) := Decimal.signed rest
      match Decimal.digitRun rest with
      | ([], _) => none
      | (digits, rest) =>
        let power : Int := Decimal.value digits
        some (some (if negative then -power else power), rest)
    else some (none, cs)
  | [] => some (none, cs)

def number? (cs : List Char) : Option (Numeral × List Char) :=
  let (negative, cs) :=
    match cs with
    | '-' :: rest => (true, rest)
    | cs => (false, cs)
  (whole? cs).bind fun (whole, cs) =>
    (fraction? cs).bind fun (fraction, cs) =>
      (exponent? cs).map fun (exponent, cs) => (⟨negative, whole, fraction, exponent⟩, cs)

def hexValue? (c : Char) : Option Nat :=
  if c.isDigit then some (c.toNat - 48)
  else if 'a' ≤ c ∧ c ≤ 'f' then some (c.toNat - 87)
  else if 'A' ≤ c ∧ c ≤ 'F' then some (c.toNat - 55)
  else none

def unit? : List Char → Option (Nat × List Char)
  | a :: b :: c :: d :: rest => do
    let a ← hexValue? a
    let b ← hexValue? b
    let c ← hexValue? c
    let d ← hexValue? d
    some (((a * 16 + b) * 16 + c) * 16 + d, rest)
  | _ => none

/-- One item of a text: a character, or a 16-bit unit from an escape. -/
inductive TextItem
  | char (c : Char)
  | unit (code : Nat)

def shortEscape? : Char → Option Char
  | '"' => some '"'
  | '\\' => some '\\'
  | '/' => some '/'
  | 'b' => some '\x08'
  | 'f' => some '\x0c'
  | 'n' => some '\n'
  | 'r' => some '\r'
  | 't' => some '\t'
  | _ => none

/-- The items up to the closing quote. -/
def textItems? : Nat → List Char → Option (List TextItem × List Char)
  | 0, _ => none
  | _, [] => none
  | _, '"' :: rest => some ([], rest)
  | fuel + 1, '\\' :: 'u' :: rest => do
    let (code, rest) ← unit? rest
    let (items, rest) ← textItems? fuel rest
    some (.unit code :: items, rest)
  | fuel + 1, '\\' :: c :: rest => do
    let c ← shortEscape? c
    let (items, rest) ← textItems? fuel rest
    some (.char c :: items, rest)
  | fuel + 1, c :: rest =>
    if c.toNat < 32 ∨ c = '\\' then none
    else do
      let (items, rest) ← textItems? fuel rest
      some (.char c :: items, rest)

/-- The characters of the items, if surrogates stand in pairs. -/
def characters? : List TextItem → Option (List Char)
  | [] => some []
  | .char c :: rest => (characters? rest).map (c :: ·)
  | .unit high :: .unit low :: rest =>
    if 0xd800 ≤ high ∧ high < 0xdc00 then
      if 0xdc00 ≤ low ∧ low < 0xe000 then
        (characters? rest).map (Char.ofNat ((high - 0xd800) * 0x400 + (low - 0xdc00) + 0x10000) :: ·)
      else none
    else if 0xdc00 ≤ high ∧ high < 0xe000 then none
    else (characters? (.unit low :: rest)).map (Char.ofNat high :: ·)
  | .unit code :: rest =>
    if 0xd800 ≤ code ∧ code < 0xe000 then none
    else (characters? rest).map (Char.ofNat code :: ·)

/-- The text after an opening quote. -/
def text? (cs : List Char) : Option (Option String × List Char) :=
  (textItems? (cs.length + 1) cs).map fun (items, rest) =>
    ((characters? items).map String.ofList, rest)

mutual

/-- A document, with spaces before it. -/
def value? : Nat → List Char → Option (Json × List Char)
  | 0, _ => none
  | fuel + 1, cs =>
    match skipSpace cs with
    | '[' :: rest =>
      match skipSpace rest with
      | ']' :: rest => some (array [], rest)
      | rest => (items? fuel rest).map fun (items, rest) => (array items, rest)
    | '\x7b' :: rest =>
      match skipSpace rest with
      | '\x7d' :: rest => some (object [], rest)
      | rest => (entries? fuel rest).map fun (entries, rest) => (object entries, rest)
    | '"' :: rest => (text? rest).map fun (text, rest) => (string text, rest)
    | 'n' :: rest => (word? "ull".toList rest).map fun rest => (null, rest)
    | 't' :: rest => (word? "rue".toList rest).map fun rest => (boolean true, rest)
    | 'f' :: rest => (word? "alse".toList rest).map fun rest => (boolean false, rest)
    | cs => (number? cs).map fun (numeral, rest) => (number numeral, rest)

/-- One or more items and the closing bracket. -/
def items? : Nat → List Char → Option (List Json × List Char)
  | 0, _ => none
  | fuel + 1, cs =>
    (value? fuel cs).bind fun (item, rest) =>
      match skipSpace rest with
      | ']' :: rest => some ([item], rest)
      | ',' :: rest => (items? fuel rest).map fun (items, rest) => (item :: items, rest)
      | _ => none

/-- One or more entries and the closing brace. -/
def entries? : Nat → List Char → Option (List (Option String × Json) × List Char)
  | 0, _ => none
  | fuel + 1, cs =>
    match skipSpace cs with
    | '"' :: rest =>
      (text? rest).bind fun (name, rest) =>
        match skipSpace rest with
        | ':' :: rest =>
          (value? fuel rest).bind fun (value, rest) =>
            match skipSpace rest with
            | '\x7d' :: rest => some ([(name, value)], rest)
            | ',' :: rest =>
              (entries? fuel rest).map fun (entries, rest) => ((name, value) :: entries, rest)
            | _ => none
        | _ => none
    | _ => none

end

/-- The document that a whole text spells. -/
def read? (text : String) : Option Json :=
  let cs := text.toList
  (value? (2 * cs.length + 1) cs).bind fun (document, rest) =>
    if (skipSpace rest).isEmpty then some document else none

end Tripwire.Json
