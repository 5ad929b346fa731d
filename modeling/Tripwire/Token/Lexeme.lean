import Tripwire.Number.Decimal
import Tripwire.Text.Alphabetic
import Tripwire.Text.Blank
import Tripwire.Text.Numeric
import Tripwire.Token.Basic

/-!
The token at the front of a text.  Each reader answers with a token and the
number of characters that it takes, which is never zero (`width_pos`).
-/

namespace Tripwire.Lexeme

/-- A token and its width in characters. -/
abbrev Reader := List Char → Option (Token × Nat)

def blank? : Reader := fun cs =>
  let run := cs.takeWhile Text.isBlank
  if run = [] then none else some (.blank (String.ofList run), run.length)

def escape? : Char → Option Char
  | 'n' => some '\n'
  | 't' => some '\t'
  | '"' => some '"'
  | '\'' => some '\''
  | '\\' => some '\\'
  | _ => none

/-- The contents up to the closing quote, and the width with that quote. -/
def quotedBody? (quote : Char) : List Char → Option (List Char × Nat)
  | [] => none
  | '\\' :: c :: rest =>
    match escape? c, quotedBody? quote rest with
    | some c, some (contents, width) => some (c :: contents, width + 2)
    | _, _ => none
  | c :: rest =>
    if c = quote then some ([], 1)
    else if c = '\\' then none
    else (quotedBody? quote rest).map fun (contents, width) => (c :: contents, width + 1)

def quoted? : Reader
  | quote :: rest =>
    if quote = '"' ∨ quote = '\'' then
      (quotedBody? quote rest).map fun (contents, width) =>
        (.literal (.string (String.ofList contents)), width + 1)
    else none
  | [] => none

/-- A number without a point is an integer if it is in range. -/
def wholeLiteral (digits : List Char) : Literal :=
  match Integer.narrow? (Decimal.value digits) with
  | some n => .integer n
  | none => .float (Decimal.toFloat ⟨Decimal.value digits, 0⟩)

def pointLiteral (whole fraction : List Char) : Literal :=
  .float (Decimal.toFloat ⟨Decimal.value (whole ++ fraction), -fraction.length⟩)

/-- Digits, or digits, a point and digits. -/
def number? : Reader := fun cs =>
  match Decimal.digitRun cs with
  | ([], _) => none
  | (whole, '.' :: rest) =>
    match Decimal.digitRun rest with
    | ([], _) => some (.literal (wholeLiteral whole), whole.length)
    | (fraction, _) =>
      some (.literal (pointLiteral whole fraction), whole.length + 1 + fraction.length)
  | (whole, _) => some (.literal (wholeLiteral whole), whole.length)

def literal? : Reader := fun cs => (quoted? cs).or (number? cs)

/-- The longest operator symbol. -/
def symbol? : Reader := fun cs =>
  (Symbol.all.find? fun symbol => symbol.text.toList.isPrefixOf cs).map fun symbol =>
    (.symbol symbol, symbol.text.toList.length)

def paren? : Reader
  | '(' :: _ => some (.paren .opening, 1)
  | ')' :: _ => some (.paren .closing, 1)
  | _ => none

def startsName (c : Char) : Bool := Text.isAlphabetic c || c = '_'

def continuesName (c : Char) : Bool := Text.isAlphabetic c || Text.isNumeric c || c = '_'

/-- The words `true` and `false` in any case and the word `null` are constants. -/
def wordToken (word : String) : Token :=
  if Text.sameLetters word "true" then .literal (.boolean true)
  else if Text.sameLetters word "false" then .literal (.boolean false)
  else if word = "null" then .literal .null
  else .name word

def word? : Reader
  | first :: rest =>
    if startsName first then
      let word := first :: rest.takeWhile continuesName
      some (wordToken (String.ofList word), word.length)
    else none
  | [] => none

/-- The readers in the order in which they are tried. -/
def readers : List Reader := [blank?, literal?, symbol?, paren?, word?]

def lex? : Reader := fun cs => readers.findSome? fun reader => reader cs

theorem width_pos_of_literal? {cs : List Char} {token : Token} {width : Nat}
    (found : literal? cs = some (token, width)) : 0 < width := by
  rcases Option.or_eq_some_iff.mp found with found | ⟨_, found⟩
  · unfold quoted? at found
    split at found
    · split at found
      · obtain ⟨_, _, equal⟩ := Option.map_eq_some_iff.mp found
        cases equal; omega
      · cases found
    · cases found
  · unfold number? at found
    split at found
    · cases found
    · rename_i whole _ filled _
      split at found <;> cases found
      · exact List.length_pos_iff.mpr filled
      · omega
    · rename_i whole _ filled _ _
      cases found
      exact List.length_pos_iff.mpr filled

/-- A token takes at least one character. -/
theorem width_pos {cs : List Char} {token : Token} {width : Nat}
    (found : lex? cs = some (token, width)) : 0 < width := by
  obtain ⟨reader, member, found⟩ := List.exists_of_findSome?_eq_some found
  simp only [readers, List.mem_cons, List.not_mem_nil, or_false] at member
  rcases member with rfl | rfl | rfl | rfl | rfl
  · simp only [blank?] at found
    split at found
    · cases found
    · rename_i filled
      cases found
      exact List.length_pos_iff.mpr filled
  · exact width_pos_of_literal? found
  · obtain ⟨symbol, _, equal⟩ := Option.map_eq_some_iff.mp found
    cases equal
    cases symbol <;> decide
  · unfold paren? at found
    split at found <;> cases found <;> omega
  · unfold word? at found
    split at found
    · split at found <;> cases found
      simp
    · cases found

end Tripwire.Lexeme
