import LiveTemplate.Number.Power
/-!
# Exact readings of doubles

A double is a dyadic number `± significand · 2 ^ exponent`, an infinity, or not a number.
`Exact.ofFloat` takes the bits apart once, and every operation of this library that has to
look inside a double — the four roundings to an integer, the remainder of a division, the
clamped readings as machine integers, the decimal texts — works on that reading in exact
`Nat` and `Int` arithmetic.  Nothing here rounds except where its name says so.

Two conventions run through the file.  Rounding keeps the sign of its argument, so a value
that rounds to zero from below gives the negative zero.  A conversion to a bounded integer
drops the fraction, clamps to the bounds, and reads not-a-number as zero.
-/

set_option autoImplicit false

namespace LiveTemplate

/-- A double, taken apart: the finite ones are `significand · 2 ^ exponent`, negated when
`negative` is set.  Both zeros are finite with significand zero. -/
inductive Exact where
  | nan
  | infinite (negative : Bool)
  | finite (negative : Bool) (significand : Nat) (exponent : Int)
deriving Repr, DecidableEq

namespace Exact

/-- The fields of a double: sign bit, eleven exponent bits, fifty-two fraction bits. -/
def ofFloat (x : Float) : Exact :=
  let bits := x.toBits
  let negative := bits >>> 63 == 1
  let exponent := ((bits >>> 52) &&& 0x7FF).toNat
  let fraction := (bits &&& 0xFFFFFFFFFFFFF).toNat
  if exponent == 0x7FF then
    if fraction == 0 then .infinite negative else .nan
  else if exponent == 0 then .finite negative fraction (-1074)
  else .finite negative (pow2 52 + fraction) ((exponent : Int) - 1075)

/-- The double that is `± significand · 2 ^ exponent`, for a magnitude that some double has.
The significand is moved to fifty-three bits, or as far as the least exponent allows. -/
def toFloat (negative : Bool) (significand : Nat) (exponent : Int) : Float :=
  let sign : UInt64 := if negative then 0x8000000000000000 else 0
  if significand == 0 then Float.ofBits sign
  else
    let leading : Int := (significand.log2 : Int) + exponent
    let unit : Int := max (leading - 52) (-1074)
    let shift : Int := exponent - unit
    let scaled := if shift ≥ 0 then significand <<< shift.toNat else significand >>> (-shift).toNat
    let biased : Int := if leading < -1022 then 0 else leading + 1023
    Float.ofBits (sign ||| (UInt64.ofNat biased.toNat <<< 52) ||| UInt64.ofNat (scaled % pow2 52))

/-- The greatest integer that is at most the magnitude. -/
def floorMagnitude (significand : Nat) (exponent : Int) : Nat :=
  if exponent ≥ 0 then significand <<< exponent.toNat else significand >>> (-exponent).toNat

/-- The least integer that is at least the magnitude. -/
def ceilMagnitude (significand : Nat) (exponent : Int) : Nat :=
  if exponent ≥ 0 then significand <<< exponent.toNat
  else (significand + (pow2 (-exponent).toNat - 1)) >>> (-exponent).toNat

/-- The integer nearest to the magnitude; a half goes up. -/
def roundMagnitude (significand : Nat) (exponent : Int) : Nat :=
  if exponent ≥ 0 then significand <<< exponent.toNat
  else (significand + pow2 ((-exponent).toNat - 1)) >>> (-exponent).toNat

/-- Round a double with a rule for magnitudes that is given the sign too.  A double whose
exponent is not negative is an integer already, as are the infinities in this reckoning. -/
def roundWith (rule : Bool → Nat → Int → Nat) (x : Float) : Float :=
  match ofFloat x with
  | .finite negative significand exponent =>
    if exponent ≥ 0 then x else toFloat negative (rule negative significand exponent) 0
  | _ => x

end Exact

namespace Number

/-- Not a number: the result of every numeric operation that has none. -/
def nan : Float := Float.ofBits 0x7FF8000000000000

/-- Positive infinity. -/
def infinity : Float := Float.ofBits 0x7FF0000000000000

/-- Drop the fraction. -/
def trunc (x : Float) : Float :=
  Exact.roundWith (fun _ m e => Exact.floorMagnitude m e) x

/-- Round down. -/
def floor (x : Float) : Float :=
  Exact.roundWith (fun negative m e =>
    if negative then Exact.ceilMagnitude m e else Exact.floorMagnitude m e) x

/-- Round up. -/
def ceil (x : Float) : Float :=
  Exact.roundWith (fun negative m e =>
    if negative then Exact.floorMagnitude m e else Exact.ceilMagnitude m e) x

/-- Round to the nearest integer, halves away from zero. -/
def round (x : Float) : Float :=
  Exact.roundWith (fun _ m e => Exact.roundMagnitude m e) x

/-- True when the double is an integer. -/
def isIntegral (x : Float) : Bool :=
  match Exact.ofFloat x with
  | .finite _ m e => e ≥ 0 || m % pow2 (-e).toNat == 0
  | _ => false

/-- The double without its fraction as an integer, clamped to `low … high`.  Not-a-number
reads as zero. -/
def clampInt (low high : Int) (x : Float) : Int :=
  match Exact.ofFloat x with
  | .nan => 0
  | .infinite negative => if negative then low else high
  | .finite negative m e =>
    let magnitude : Int := Exact.floorMagnitude m e
    max low (min high (if negative then -magnitude else magnitude))

/-- The least and greatest signed 64-bit integers. -/
def minInt64 : Int := -9223372036854775808

@[inherit_doc minInt64]
def maxInt64 : Int := 9223372036854775807

/-- Read a double as a signed 64-bit integer, clamped. -/
def toInt64 (x : Float) : Int := clampInt minInt64 maxInt64 x

/-- Read a double as a signed 32-bit integer, clamped. -/
def toInt32 (x : Float) : Int := clampInt (-2147483648) 2147483647 x

/-- Read a double as an unsigned 32-bit integer, clamped. -/
def toUInt32 (x : Float) : UInt32 := UInt32.ofNat (clampInt 0 4294967295 x).toNat

/-- The double nearest to an integer. -/
def ofInt (n : Int) : Float := Float.ofInt n

/-- The remainder of a division that drops the fraction of its quotient.  It has the sign of
the dividend and is computed exactly. -/
def remainder (x y : Float) : Float :=
  match Exact.ofFloat x, Exact.ofFloat y with
  | .nan, _ => nan
  | _, .nan => nan
  | .infinite _, _ => nan
  | .finite .., .infinite _ => x
  | .finite negative m e, .finite _ n f =>
    if n == 0 then nan
    else
      let unit := min e f
      let dividend := m <<< (e - unit).toNat
      let divisor := n <<< (f - unit).toNat
      Exact.toFloat negative (dividend % divisor) unit

/-- `x` raised to a natural power by repeated squaring, each product rounded. -/
def power (x : Float) (n : Nat) : Float :=
  go n x 1.0
where
  /-- Multiply the squares that the binary digits of the exponent select. -/
  go (n : Nat) (square result : Float) : Float :=
    let result := if n % 2 == 1 then result * square else result
    if _h : n / 2 = 0 then result else go (n / 2) (square * square) result
  termination_by n
  decreasing_by omega

end Number

end LiveTemplate
