import LiveTemplate.Number.Scientific
import LiveTemplate.Json.Text
/-!
# Colors

A color packs four channels of eight bits into one word: red, green, blue and alpha, from the
most significant byte down.  Its text is `#` and the eight hexadecimal digits of that word.

Channels are computed from doubles: a channel is rounded, halves away from zero, and moved into
`0 … 255`.  Not-a-number gives zero.  Hues are angles in degrees; saturation, lightness and
alpha are fractions of one.
-/

set_option autoImplicit false

namespace LiveTemplate

/-- A color as its word of red, green, blue and alpha. -/
structure Color where
  rgba : UInt32
deriving Repr, DecidableEq

namespace Color

/-- The color that nothing is seen of: all channels are zero. -/
def transparent : Color := ⟨0⟩

/-- A color from its channels. -/
def ofChannels (red green blue alpha : UInt8) : Color :=
  ⟨(red.toUInt32 <<< 24) ||| (green.toUInt32 <<< 16) ||| (blue.toUInt32 <<< 8) ||| alpha.toUInt32⟩

/-- The red channel. -/
def red (c : Color) : UInt8 := (c.rgba >>> 24).toUInt8

/-- The green channel. -/
def green (c : Color) : UInt8 := (c.rgba >>> 16).toUInt8

/-- The blue channel. -/
def blue (c : Color) : UInt8 := (c.rgba >>> 8).toUInt8

/-- The alpha channel. -/
def alpha (c : Color) : UInt8 := c.rgba.toUInt8

/-- The lowest `count` hexadecimal digits of a number, the most significant first. -/
def hexDigits : Nat → Nat → List Char
  | 0, _ => []
  | count + 1, n => hexDigits count (n / 16) ++ [Json.hexDigit (n % 16)]

/-- The text of a color. -/
def text (c : Color) : String := String.ofList ('#' :: hexDigits 8 c.rgba.toNat)

/-- A channel from a number on the scale of `255`. -/
def channel (x : Float) : UInt8 :=
  UInt8.ofNat (Number.clampInt 0 255 (Number.clamp 0.0 255.0 (Number.round x))).toNat

/-- A channel from a fraction of one. -/
def unitChannel (x : Float) : UInt8 := channel (x * 255.0)

/-- A color from three channels and a fraction for alpha. -/
def ofRgb (red green blue alpha : Float) : Color :=
  ofChannels (channel red) (channel green) (channel blue) (unitChannel alpha)

/-- The color with its alpha scaled by a fraction. -/
def scaleAlpha (c : Color) (alpha : Float) : Color :=
  ofChannels c.red c.green c.blue
    (channel (Number.ofInt c.alpha.toNat * Number.clamp 0.0 1.0 alpha))

/-- One channel of a hue: along the circle it rises from `low` to `high` over a sixth, stays
for two sixths, falls over a sixth and stays low. -/
def hueChannel (low high position : Float) : Float :=
  let t := Number.remainderEuclid position 1.0
  if t < 1.0 / 6.0 then low + (high - low) * 6.0 * t
  else if t < 0.5 then high
  else if t < 2.0 / 3.0 then low + (high - low) * (2.0 / 3.0 - t) * 6.0
  else low

/-- A color from hue, saturation, lightness and alpha. -/
def ofHsl (hue saturation lightness alpha : Float) : Color :=
  let h := Number.remainderEuclid hue 360.0 / 360.0
  let s := Number.clamp 0.0 1.0 saturation
  let l := Number.clamp 0.0 1.0 lightness
  if s == 0.0 then ofChannels (unitChannel l) (unitChannel l) (unitChannel l) (unitChannel alpha)
  else
    let high := if l < 0.5 then l * (1.0 + s) else l + s - l * s
    let low := 2.0 * l - high
    ofChannels (unitChannel (hueChannel low high (h + 1.0 / 3.0)))
      (unitChannel (hueChannel low high h))
      (unitChannel (hueChannel low high (h - 1.0 / 3.0)))
      (unitChannel alpha)

end Color

end LiveTemplate
