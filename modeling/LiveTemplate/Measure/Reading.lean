import LiveTemplate.Measure.Basic
import LiveTemplate.Number.Scientific
import LiveTemplate.Text.Blank
/-!
# Reading dimensions

A dimension is written `auto`, or as a decimal number with a unit: `dp`, `px`, `vw`, `vh` or
`%`, where no unit means `dp`.  White space is allowed around both.  The number may have a sign,
a point and an exponent, and an `e` that no digits follow makes the text unreadable.
-/

set_option autoImplicit false

namespace LiveTemplate.Dimension

open Text

/-- A decimal number as written. -/
structure Literal where
  negative : Bool
  whole : List Char
  places : List Char
  exponent : Int

/-- The double nearest to a written number. -/
def Literal.value (n : Literal) : Float :=
  let magnitude := Number.ofPoint n.whole n.places n.exponent
  if n.negative then -magnitude else magnitude

namespace Reading

/-- Is this a decimal digit? -/
def isDecimal (c : Char) : Bool := '0' ≤ c && c ≤ '9'

/-- A sign, and whether it is a minus. -/
def sign : List Char → Bool × List Char
  | '-' :: rest => (true, rest)
  | '+' :: rest => (false, rest)
  | rest => (false, rest)

/-- The exponent after its mark; none if no digits follow the mark, zero without a mark. -/
def exponent? : List Char → Option (Int × List Char)
  | c :: rest =>
    if c == 'e' || c == 'E' then
      let (negative, rest) := sign rest
      let digits := rest.takeWhile isDecimal
      if digits.isEmpty then none
      else
        let n : Int := Number.ofDigits digits
        some (if negative then -n else n, rest.dropWhile isDecimal)
    else some (0, c :: rest)
  | [] => some (0, [])

/-- A number with sign, point and exponent. -/
def literal? (text : List Char) : Option (Literal × List Char) :=
  let (negative, body) := sign text
  let whole := body.takeWhile isDecimal
  let rest := body.dropWhile isDecimal
  let (places, rest) := match rest with
    | '.' :: rest => (rest.takeWhile isDecimal, rest.dropWhile isDecimal)
    | rest => ([], rest)
  if whole.isEmpty ∧ places.isEmpty then none
  else (exponent? rest).map fun (exponent, rest) => (⟨negative, whole, places, exponent⟩, rest)

/-- A unit at the end of the text, white space apart. -/
def unit? (text : List Char) : Option LengthUnit :=
  let suffix := ((skipBlank text).reverse.dropWhile isBlank).reverse
  if suffix.isEmpty then some .dp else LengthUnit.ofSuffix? suffix

end Reading

/-- Read a dimension against a viewport. -/
def read? (viewport : Viewport) (text : String) : Option Dimension :=
  if trim text.toList == ['a', 'u', 't', 'o'] then some .auto
  else do
    let (literal, rest) ← Reading.literal? (skipBlank text.toList)
    let unit ← Reading.unit? rest
    some (viewport.resolve literal.value unit)

/-- The wording for a text that is no dimension. -/
def unreadable (text : String) : String := "Invalid dimension: '" ++ text ++ "'"

end LiveTemplate.Dimension
