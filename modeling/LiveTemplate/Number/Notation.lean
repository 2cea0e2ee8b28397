import LiveTemplate.Number.Shortest
/-!
# Laying out a double in decimal

Which digits a double has is settled in `LiveTemplate.Number.Shortest`; this file writes them
down.  A `Layout` lists the decisions: for which exponents the point is written in place,
whether an integral value keeps a `.0`, how a tie between two shortest decimals goes, and how
the doubles that are no number are spelled.  The library has two such layouts, one for the
developer's description of a value and one for JSON text.

Beside them are the two texts with a set number of places: six, for the developer's
description of a number.
-/

set_option autoImplicit false

namespace LiveTemplate

/-- The decisions of a decimal text with the fewest digits. -/
structure Layout where
  /-- The least exponent of the leading digit that is written in place. -/
  plainFrom : Int
  /-- From this exponent of the leading digit on, the exponent is written out. -/
  plainBelow : Int
  /-- How a tie between two shortest decimals goes. -/
  tie : Decimal.Tie
  /-- The text of not-a-number. -/
  nanText : String
  /-- The text of infinity, without its sign. -/
  infinityText : String
deriving Repr

namespace Layout

/-- Numbers in the description of a styling value: in place from `0.0001` up to, not including,
`10 ^ 16`. -/
def described : Layout where
  plainFrom := -4
  plainBelow := 16
  tie := .upward
  nanText := "NaN"
  infinityText := "inf"

/-- Numbers in JSON text: in place from `0.00001` up to, not including, `10 ^ 16`.  JSON has no
other doubles than the finite ones, and writes the rest as `null`. -/
def json : Layout where
  plainFrom := -5
  plainBelow := 16
  tie := .toEven
  nanText := "null"
  infinityText := "null"

/-- A list of zeros. -/
def zeros (n : Nat) : List Char := List.replicate n '0'

/-- Digits in place: before, inside or after the point.  An integral value ends in `.0`. -/
def inPlace (digits : List Char) (exponent : Int) : List Char :=
  if exponent ≥ 0 then digits ++ zeros exponent.toNat ++ ['.', '0']
  else
    let places := (-exponent).toNat
    if digits.length > places then
      digits.take (digits.length - places) ++ '.' :: digits.drop (digits.length - places)
    else '0' :: '.' :: zeros (places - digits.length) ++ digits

/-- Digits with a written exponent: one digit, the point if more follow, the exponent. -/
def withExponent (digits : List Char) (leading : Int) : List Char :=
  let mantissa := match digits with
    | [] => []
    | [d] => [d]
    | d :: rest => d :: '.' :: rest
  mantissa ++ 'e' :: (toString leading).toList

/-- The text of a finite magnitude. -/
def magnitude (layout : Layout) (significand : Nat) (exponent : Int) : List Char :=
  let d := Decimal.shortest layout.tie significand exponent
  let digits := d.digitText
  let leading : Int := d.exponent + digits.length - 1
  if layout.plainFrom ≤ leading ∧ leading < layout.plainBelow then inPlace digits d.exponent
  else withExponent digits leading

/-- The text of a double. -/
def text (layout : Layout) (x : Float) : String :=
  match Exact.ofFloat x with
  | .nan => layout.nanText
  | .infinite negative => (if negative then "-" else "") ++ layout.infinityText
  | .finite negative m e =>
    (if negative then "-" else "") ++ String.ofList (layout.magnitude m e)

end Layout

namespace Number

/-- The integer nearest to `num / den`; a tie goes to the even one. -/
def roundQuotient (num den : Nat) : Nat :=
  let q := num / den
  match compare (2 * (num % den)) den with
  | .lt => q
  | .gt => q + 1
  | .eq => if q % 2 == 0 then q else q + 1

/-- The digits of a natural number, padded with zeros on the left. -/
def padded (width n : Nat) : List Char :=
  let digits := Nat.toDigits 10 n
  Layout.zeros (width - digits.length) ++ digits

/-- Exactly six places, rounded from the exact value of the double with ties to even.  The
sign is kept, also before a zero. -/
def sixPlaces (x : Float) : String :=
  match Exact.ofFloat x with
  | .nan => "NaN"
  | .infinite negative => if negative then "-inf" else "inf"
  | .finite negative m e =>
    let millionths := roundQuotient (m * pow2 e.toNat * pow10 6) (pow2 (-e).toNat)
    (if negative then "-" else "") ++ toString (millionths / pow10 6) ++ "." ++
      String.ofList (padded 6 (millionths % pow10 6))

end Number

end LiveTemplate
