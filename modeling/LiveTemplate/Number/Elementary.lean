import LiveTemplate.Number.Exact
/-!
# Elementary functions

The functions of one number that no exact arithmetic gives: logarithms, exponentials, angles.
Most come with the platform.  Those near one or zero, `log (1 + x)` and `exp x - 1`, are
computed here from the others with a correction of the rounded argument, and the inverse
hyperbolic functions from logarithms.
-/

set_option autoImplicit false

namespace LiveTemplate.Number

/-- The first number with the sign of the second. -/
def copySign (magnitude sign : Float) : Float :=
  if sign.toBits >>> 63 == 1 then -magnitude.abs else magnitude.abs

/-- The sign of a number: one with the sign, except that zeros and not-a-number stay. -/
def sign (x : Float) : Float := if x.isNaN || x == 0.0 then x else copySign 1.0 x

/-- The logarithm of one and a number. -/
def logOnePlus (x : Float) : Float :=
  let shifted := 1.0 + x
  if shifted == 1.0 || x.isInf && x > 0.0 then x
  else Float.log shifted * (x / (shifted - 1.0))

/-- The exponential of a number, less one.  Away from zero nothing is lost by subtracting. -/
def expMinusOne (x : Float) : Float :=
  let e := Float.exp x
  if e == 1.0 then x
  else if x.abs > 1.0 then e - 1.0
  else (e - 1.0) * (x / Float.log e)

/-- The inverse hyperbolic sine. -/
def arsinh (x : Float) : Float :=
  let magnitude := x.abs
  let inverse := 1.0 / magnitude
  copySign (logOnePlus
    (magnitude + magnitude / (Float.sqrt (1.0 + inverse * inverse) + inverse))) x

/-- The inverse hyperbolic cosine. -/
def arcosh (x : Float) : Float :=
  if x < 1.0 then nan else Float.log (x + Float.sqrt (x - 1.0) * Float.sqrt (x + 1.0))

/-- The inverse hyperbolic tangent. -/
def artanh (x : Float) : Float := 0.5 * logOnePlus (2.0 * x / (1.0 - x))

end LiveTemplate.Number
