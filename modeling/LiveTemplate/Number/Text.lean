import LiveTemplate.Number.Notation
/-!
# The text of a number in a template

When a number lands in text it is written the way a document author expects: no point for an
integer, otherwise at most six places with trailing zeros dropped, always with a `.` for the
point.  Integers below `2 ^ 63` in magnitude are exact; a larger double shows its shortest
digits followed by zeros.

The six places are computed in double arithmetic: the fraction is scaled by a million and
rounded, halves away from zero, and a fraction that rounds up to a whole carries into the
integer part.  The sign is taken from the number and not from the digits, so a number that
rounds to zero from below is written `-0`.
-/

set_option autoImplicit false

namespace LiveTemplate.Number

/-- The text of an integral double: exact digits while they fit a signed 64-bit integer. -/
def integerText? (x : Float) : Option String :=
  if x < ofInt maxInt64 && x > ofInt minInt64 && isIntegral x then some (toString (toInt64 x))
  else none

/-- All digits of an integral magnitude: the shortest digits that read back, then zeros. -/
def wholeText (x : Float) : List Char :=
  match Exact.ofFloat x with
  | .finite _ m e =>
    let d := Decimal.shortest .upward m e
    d.digitText ++ Layout.zeros d.exponent.toNat
  | _ => []

/-- Six places, and then the trailing zeros dropped; a point that is left bare goes too. -/
def fractionText (millionths : Nat) : List Char :=
  let kept := ((padded 6 millionths).reverse.dropWhile (· == '0')).reverse
  if kept.isEmpty then [] else '.' :: kept

/-- The text of a number that is no integer in range. -/
def fixedText (x : Float) : String :=
  if x.isNaN then "nan"
  else if x.isInf then (if x > 0.0 then "inf" else "-inf")
  else
    let magnitude := x.abs
    let whole := trunc magnitude
    let millionths := (clampInt 0 1000000 (round ((magnitude - whole) * 1000000.0))).toNat
    let carried := millionths ≥ 1000000
    let whole := if carried then whole + 1.0 else whole
    let millionths := if carried then millionths - 1000000 else millionths
    String.ofList ((if x < 0.0 then ['-'] else []) ++ wholeText whole ++ fractionText millionths)

/-- The text of a number. -/
def display (x : Float) : String :=
  match integerText? x with
  | some text => text
  | none => fixedText x

end LiveTemplate.Number
