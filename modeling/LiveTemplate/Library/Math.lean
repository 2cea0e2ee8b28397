import LiveTemplate.Library.Builtin
import LiveTemplate.Number.Elementary
import LiveTemplate.Value.Conversion
/-!
# The mathematical functions

Arguments are converted to numbers first.  A call with the wrong number of arguments is not a
number, and a test of no number at all is false.  The greatest and the least of several numbers
are not a number when one of them is not; of no numbers at all they are the infinities.

`int` drops a fraction, and reads a text in a base from two to thirty-six, where base zero is
inferred from the text.
-/

set_option autoImplicit false

namespace LiveTemplate.Library

/-- A function of one number. -/
def applyMath : MathFunction → Float → Float
  | .abs => Float.abs
  | .acos => Float.acos
  | .acosh => Number.arcosh
  | .asin => Float.asin
  | .asinh => Number.arsinh
  | .atan => Float.atan
  | .atanh => Number.artanh
  | .cbrt => Float.cbrt
  | .ceil => Number.ceil
  | .cos => Float.cos
  | .cosh => Float.cosh
  | .exp => Float.exp
  | .exp2 => Float.exp2
  | .expm1 => Number.expMinusOne
  | .floor => Number.floor
  | .log => Float.log
  | .log1p => Number.logOnePlus
  | .log10 => Float.log10
  | .log2 => Float.log2
  | .round => Number.round
  | .sign => Number.sign
  | .sin => Float.sin
  | .sinh => Float.sinh
  | .sqrt => Float.sqrt
  | .tan => Float.tan
  | .tanh => Float.tanh
  | .trunc => Number.trunc

/-- A test of one number. -/
def applyTest : MathTest → Float → Bool
  | .isFinite => Float.isFinite
  | .isInfinite => Float.isInf
  | .isNaN => Float.isNaN

/-- A function of two numbers. -/
def applyPair : MathPair → Float → Float → Float
  | .atan2 => Float.atan2
  | .pow => Float.pow

/-- A number moved between two bounds. -/
def clamp (low value high : Float) : Float :=
  if low.isNaN || value.isNaN || high.isNaN then Number.nan
  else if value < low then low
  else if value > high then high
  else value

/-- The square root of the sum of squares.  An empty sum is the negative zero, which adds
nothing to any number. -/
def hypot (numbers : List Float) : Float :=
  Float.sqrt (numbers.foldl (fun sum x => sum + x * x) (-0.0))

/-- Fold numbers with a choice between two; not a number as soon as one of them is not. -/
def extreme (choose : Float → Float → Float) : Float → List Float → Float
  | result, [] => result
  | result, x :: rest => if x.isNaN then Number.nan else extreme choose (choose result x) rest

/-- The greatest of some numbers. -/
def greatest (numbers : List Float) : Float :=
  extreme (fun a b => if a < b then b else a) (-Number.infinity) numbers

/-- The least of some numbers. -/
def least (numbers : List Float) : Float :=
  extreme (fun a b => if b < a then b else a) Number.infinity numbers

/-- An integer: a text read in a base, or a number without its fraction. -/
def int (base : Int) (v : Value) : Value :=
  if base ≠ 0 ∧ (base < 2 ∨ 36 < base) then Value.nan
  else match v with
    | .text s => .number (Number.ofInt (Integer.ofText base.toNat s))
    | v => .number (Number.trunc v.toNumber)

/-- The mathematical constants. -/
def constants : List (String × Float) := [
  ("E", Float.ofBits 0x4005BF0A8B145769),
  ("LN2", Float.ofBits 0x3FE62E42FEFA39EF),
  ("LN10", Float.ofBits 0x40026BB1BBB55516),
  ("LOG2E", Float.ofBits 0x3FF71547652B82FE),
  ("LOG10E", Float.ofBits 0x3FDBCB7B1526E50E),
  ("PI", Float.ofBits 0x400921FB54442D18),
  ("SQRT1_2", Float.ofBits 0x3FE6A09E667F3BCD),
  ("SQRT2", Float.ofBits 0x3FF6A09E667F3BCD)]

end LiveTemplate.Library
