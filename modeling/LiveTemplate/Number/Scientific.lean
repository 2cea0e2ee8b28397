import LiveTemplate.Number.Exact
/-!
# Doubles from decimals

The double nearest to a decimal `significand · 10 ^ exponent`, ties to the even neighbour.
Decimals far outside the range of doubles are settled by their number of digits, so that no
huge power is ever computed: from `10 ^ 310` on the result is infinite, and below `10 ^ -330`
it is zero.
-/

set_option autoImplicit false

namespace LiveTemplate.Number

/-- The number that a list of decimal digits denotes. -/
def ofDigits (digits : List Char) : Nat :=
  digits.foldl (fun n c => n * 10 + (c.toNat - '0'.toNat)) 0

/-- The number of decimal digits, none for zero. -/
def digitCount (n : Nat) : Nat := if n == 0 then 0 else (Nat.toDigits 10 n).length

/-- The double nearest to a decimal. -/
def ofDecimal (significand : Nat) (exponent : Int) : Float :=
  let leading : Int := digitCount significand + exponent
  if significand == 0 then 0.0
  else if leading > 310 then infinity
  else if leading < -330 then 0.0
  else if exponent ≥ 0 then Float.ofScientific significand false exponent.toNat
  else Float.ofScientific significand true (-exponent).toNat

/-- The double nearest to a decimal written with a point and an exponent. -/
def ofPoint (whole places : List Char) (exponent : Int) : Float :=
  ofDecimal (ofDigits (whole ++ places)) (exponent - places.length)

/-- Move a double into an interval.  Not-a-number stays. -/
def clamp (low high x : Float) : Float := if x < low then low else if x > high then high else x

/-- The remainder that has the sign of the divisor: it lies between zero and the divisor. -/
def remainderEuclid (x y : Float) : Float :=
  let r := remainder x y
  if r < 0.0 then r + y.abs else r

end LiveTemplate.Number
