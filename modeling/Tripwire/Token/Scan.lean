import Tripwire.Token.Lexeme

/-!
Scanning a text into located tokens.  A scan starts at any place and ends at
the place after the last token, or where no token could be read.
-/

namespace Tripwire

/-- The stretch of a text that an error points at. -/
structure Stretch where
  start : Nat
  stop : Nat
  line : Nat
  column : Nat
  deriving DecidableEq

def Stretch.text (s : Stretch) : String :=
  s!"line: {s.line}, column: {s.column}, start: {s.start}, end: {s.stop}"

structure ScanError where
  /-- What was tried there. -/
  trace : String
  /-- The beginning of the unread text. -/
  found : String
  stretch : Stretch
  deriving DecidableEq

namespace ScanError

def message (e : ScanError) : String :=
  "Parse error: " ++ e.trace ++ " at position " ++ e.stretch.text

/-- The first line of an unread text, as the trace shows it. -/
def firstLine (rest : List Char) : List Char := Text.trimEnd (rest.takeWhile (· ≠ '\n'))

/-- What was tried last at an unread text: a run of name characters, a name, and
the choice among all tokens. -/
def traceAt (rest : List Char) : String :=
  let line := String.ofList (firstLine rest)
  String.join ((["TakeWhile1", "identifier", "Alt"].zipIdx).map fun (name, index) =>
    s!"{index}: at line 1, in {name}:\n{line}\n^\n\n")

def unread (cursor : Cursor) (rest : List Char) : ScanError where
  trace := traceAt rest
  found := String.ofList (rest.take 20)
  stretch := ⟨cursor.offset, cursor.offset + 1, cursor.line, cursor.column⟩

end ScanError

/-- Scans a text from a place; also returns the place that was reached. -/
def scan (cursor : Cursor) (cs : List Char) : Except ScanError (List Located) × Cursor :=
  if cs = [] then (.ok [⟨.finish, cursor, cursor.offset⟩], cursor)
  else
    match found : Lexeme.lex? cs with
    | none => (.error (.unread cursor cs), cursor)
    | some (token, width) =>
      have : 0 < width := Lexeme.width_pos found
      let next := cursor.advance (cs.take width)
      let (tokens, final) := scan next (cs.drop width)
      (tokens.map (⟨token, cursor, next.offset⟩ :: ·), final)
termination_by cs.length
decreasing_by
  have := List.length_pos_iff.mpr ‹cs ≠ []›
  rw [List.length_drop]
  omega

end Tripwire
