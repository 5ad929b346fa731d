import Tripwire.Number.Shortest

/-!
How the digits of a float are laid out as text.  `plain` never writes a power of
ten; `document` writes one outside a range, and marks whole numbers.
-/

namespace Tripwire

/-- The decisions of one way to write numbers. -/
structure Layout where
  /-- Whether a number is written without a power of ten, by the place of its
  point counted from the first digit. -/
  positional : Int → Bool
  /-- Written after a number without a fraction. -/
  wholeMark : String
  tie : Tie
  /-- The text of a NaN or an infinity. -/
  unbounded : Float → String

namespace Layout

/-- Always positional; a whole number has no point. -/
def plain : Layout where
  positional _ := true
  wholeMark := ""
  tie := .up
  unbounded x := if x.isNaN then "NaN" else if x < 0 then "-inf" else "inf"

/-- Positional from `1e-5` up to `1e16`; a whole number ends in `.0`; a number
that is not finite has no spelling. -/
def document : Layout where
  positional place := -5 < place ∧ place ≤ 16
  wholeMark := ".0"
  tie := .even
  unbounded _ := "null"

def zeros (count : Int) : List Char := List.replicate count.toNat '0'

/-- Digits with the point at a place counted from the first digit. -/
def positionalText (layout : Layout) (digits : List Char) (place : Int) : List Char :=
  if place ≤ 0 then "0.".toList ++ zeros (-place) ++ digits
  else if digits.length ≤ place then
    digits ++ zeros (place - digits.length) ++ layout.wholeMark.toList
  else digits.take place.toNat ++ '.' :: digits.drop place.toNat

/-- Digits with the point after the first, and a signed power of ten. -/
def scientificText (digits : List Char) (place : Int) : List Char :=
  let mantissa :=
    match digits with
    | first :: second :: rest => first :: '.' :: second :: rest
    | digits => digits
  let power := place - 1
  mantissa ++ 'e' :: (if power < 0 then '-' else '+') :: (toString power.natAbs).toList

def decimalText (layout : Layout) (d : Decimal) : List Char :=
  let d := d.normalize
  let digits := Nat.toDigits 10 d.digits
  let place := digits.length + d.exponent
  if layout.positional place then layout.positionalText digits place
  else scientificText digits place

def text (layout : Layout) (x : Float) : String :=
  match Binary64.dyadic? x with
  | none => layout.unbounded x
  | some d =>
    let magnitude :=
      if d.mantissa = 0 then '0' :: layout.wholeMark.toList
      else layout.decimalText (.shortest layout.tie (if d.negative then -x else x))
    String.ofList (if d.negative then '-' :: magnitude else magnitude)

end Layout

/-- The text of a float among values: all digits of a whole number and `.0`,
else the shortest digits that read back. -/
def Float.valueText (x : Float) : String :=
  match Binary64.dyadic? x with
  | none => Layout.plain.text x
  | some d =>
    match d.toInt? with
    | some whole => (if d.negative then "-" else "") ++ toString whole.natAbs ++ ".0"
    | none => Layout.plain.text x

/-- A non-negative finite float with a fixed number of places, a half to even. -/
def Float.placesText (places : Nat) (x : Float) : String :=
  match Binary64.dyadic? x with
  | none => Layout.plain.text x
  | some d =>
    let (numerator, denominator) := d.magnitude
    let unit := Nat.pow 10 places
    let scaled := numerator * unit
    let below := scaled / denominator
    let rounded :=
      match compare (2 * (scaled % denominator)) denominator with
      | .lt => below
      | .gt => below + 1
      | .eq => below + below % 2
    let fraction := toString (rounded % unit)
    toString (rounded / unit) ++ "." ++
      "".pushn '0' (places - fraction.length) ++ fraction

end Tripwire
