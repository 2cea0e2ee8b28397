import LiveTemplate.Number.Text
/-!
# Dimensions and the viewport

A dimension is absolute, relative or automatic.  Absolute dimensions are in display-independent
pixels, of which a screen of density `160` has one per pixel; relative ones are percentages of
what surrounds them.

A number with a unit is turned into a dimension against a `Viewport`: its size in pixels, its
density, and the three facts about a screen that a document may ask for.
-/

set_option autoImplicit false

namespace LiveTemplate

/-- A length on the screen. -/
inductive Dimension where
  | absolute (value : Float)
  | relative (value : Float)
  | auto
deriving Repr, DecidableEq

namespace Dimension

/-- The number of a dimension, zero for an automatic one. -/
def value : Dimension → Float
  | .absolute v => v
  | .relative v => v
  | .auto => 0.0

/-- The text of a dimension. -/
def text : Dimension → String
  | .absolute v => Number.display v ++ "dp"
  | .relative v => Number.display v ++ "%"
  | .auto => "auto"

end Dimension

/-- The outline of a screen. -/
inductive Shape where
  | rectangle
  | round
deriving Repr, DecidableEq

/-- The word for an outline. -/
def Shape.text : Shape → String
  | .rectangle => "rectangle"
  | .round => "round"

/-- A screen as a document sees it. -/
structure Viewport where
  /-- The width in pixels. -/
  width : Float := 1024.0
  /-- The height in pixels. -/
  height : Float := 800.0
  /-- Pixels to the inch. -/
  density : Float := 160.0
  shape : Shape := .rectangle
  theme : String := "dark"
  mode : String := "hub"
deriving Repr

/-- The units that may follow a number. -/
inductive LengthUnit where
  | dp
  | px
  | vw
  | vh
  | percent
deriving Repr, DecidableEq

/-- The unit that a suffix names. -/
def LengthUnit.ofSuffix? : List Char → Option LengthUnit
  | ['d', 'p'] => some .dp
  | ['p', 'x'] => some .px
  | ['v', 'w'] => some .vw
  | ['v', 'h'] => some .vh
  | ['%'] => some .percent
  | _ => none

namespace Viewport

/-- Pixels as display-independent pixels. -/
def scale (v : Viewport) (pixels : Float) : Float := pixels * 160.0 / v.density

/-- The width in display-independent pixels. -/
def scaledWidth (v : Viewport) : Float := v.scale v.width

/-- The height in display-independent pixels. -/
def scaledHeight (v : Viewport) : Float := v.scale v.height

/-- The dimension of a number with a unit. -/
def resolve (v : Viewport) (value : Float) : LengthUnit → Dimension
  | .dp => .absolute value
  | .px => .absolute (v.scale value)
  | .vw => .absolute (value * v.scaledWidth / 100.0)
  | .vh => .absolute (value * v.scaledHeight / 100.0)
  | .percent => .relative value

end Viewport

/-- What a document may know about the program that shows it. -/
structure Agent where
  name : String := "Unknown"
  version : String := "1.0"
  /-- Milliseconds since the first of January 1970. -/
  utcTime : Float := 0.0
  /-- Milliseconds from universal to local time. -/
  localTimeAdjustment : Float := 0.0
  disallowVideo : Bool := false
  reduceMotion : Bool := false
deriving Repr

end LiveTemplate
