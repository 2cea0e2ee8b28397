import LiveTemplate.Color.Basic
import LiveTemplate.Number.Text
import LiveTemplate.Text.Printable
/-!
# Styling values

The small values that styles are made of: rectangles, corner radii, affine transforms,
gradients, media sources and text with markup.  They are plain data and equal when their parts
are; a part that is not a number makes a value unequal to everything, itself included.

Each has a JSON form and a description for developers.  Numbers in a JSON form stay doubles,
also integral ones, and those that JSON cannot write become `null`.
-/

set_option autoImplicit false

namespace LiveTemplate

/-- A rectangle by its corner and size. -/
structure Rect where
  x : Float
  y : Float
  width : Float
  height : Float
deriving Repr

/-- How the colors of a gradient spread. -/
inductive GradientKind where
  | linear
  | radial
deriving Repr, DecidableEq

/-- Colors along a line or a radius. -/
structure Gradient where
  kind : GradientKind
  angle : Float
  colors : List Color
  inputs : List Float
deriving Repr

/-- Where a medium comes from and how it plays. -/
structure Media where
  url : String
  description : String
  duration : Float
  repeatCount : Int
  offset : Float
deriving Repr

/-- A styling value. -/
inductive Styling where
  | rect (value : Rect)
  /-- The radii of the corners: top left, top right, bottom left, bottom right. -/
  | radii (values : List Float)
  /-- The six numbers of an affine matrix. -/
  | transform (matrix : List Float)
  | gradient (value : Gradient)
  | media (value : Media)
  /-- Text with markup. -/
  | styledText (raw : String)
deriving Repr

namespace Styling

/-- The matrix that moves nothing. -/
def identity : List Float := [1.0, 0.0, 0.0, 1.0, 0.0, 0.0]

/-- Equality of values of one form, part by part. -/
def same : Styling → Styling → Bool
  | .rect a, .rect b => a.x == b.x && a.y == b.y && a.width == b.width && a.height == b.height
  | .radii a, .radii b => a == b
  | .transform a, .transform b => a == b
  | .gradient a, .gradient b =>
    a.kind == b.kind && a.angle == b.angle && a.colors == b.colors && a.inputs == b.inputs
  | .media a, .media b =>
    a.url == b.url && a.description == b.description && a.duration == b.duration &&
      a.repeatCount == b.repeatCount && a.offset == b.offset
  | .styledText a, .styledText b => a == b
  | _, _ => false

/-- Drop the markup: everything from a `<` up to the next `>`, or to the end. -/
def stripTags : Bool → List Char → List Char
  | _, [] => []
  | inTag, c :: rest =>
    if c == '<' then stripTags true rest
    else if c == '>' && inTag then stripTags false rest
    else if inTag then stripTags inTag rest
    else c :: stripTags inTag rest

/-- The text that is shown for text with markup. -/
def shownText (raw : String) : String := String.ofList (stripTags false raw.toList)

/-- Does the value count as true?  All do but the transform that moves nothing and the empty
text. -/
def truthy : Styling → Bool
  | .transform matrix => !(matrix == identity)
  | .styledText raw => !raw.isEmpty
  | _ => true

/-- Is there nothing to the value? -/
def isEmpty : Styling → Bool
  | .rect r => r.width ≤ 0.0 || r.height ≤ 0.0
  | .radii values => values.all (· == 0.0)
  | .media m => m.url.isEmpty
  | .styledText raw => raw.isEmpty
  | _ => false

/-- The text of a value: only text with markup has one. -/
def text : Styling → String
  | .styledText raw => shownText raw
  | _ => ""

/-- A double in a JSON form. -/
def number (x : Float) : Json := if x.isFinite then .float x else .null

/-- The JSON form of a value. -/
def toJson : Styling → Json
  | .rect r => .array [number r.x, number r.y, number r.width, number r.height]
  | .radii values => .array (values.map number)
  | .transform matrix => .array (matrix.map number)
  | .gradient g => .ofFields [
      ("type", .text (match g.kind with | .linear => "linear" | .radial => "radial")),
      ("angle", number g.angle),
      ("colorRange", .array (g.colors.map fun c => .text c.text)),
      ("inputRange", .array (g.inputs.map number))]
  | .media m => .ofFields [
      ("url", .text m.url), ("description", .text m.description),
      ("duration", number m.duration), ("repeatCount", .int m.repeatCount),
      ("offset", number m.offset)]
  | .styledText raw => .text raw

/-- Texts with a comma and a blank between them. -/
def listed (texts : List String) : String := String.intercalate ", " texts

/-- The description of a value. -/
def described : Styling → String
  | .rect r =>
    "Rect<" ++ Number.display r.width ++ "x" ++ Number.display r.height ++ "+" ++
      Number.display r.x ++ "+" ++ Number.display r.y ++ ">"
  | .radii values => "Radii([" ++ listed (values.map Layout.described.text) ++ "])"
  | .transform matrix => "Transform2D([" ++ listed (matrix.map Layout.described.text) ++ "])"
  | .gradient g =>
    "Gradient \x7b kind: " ++ (match g.kind with | .linear => "Linear" | .radial => "Radial") ++
      ", angle: " ++ Layout.described.text g.angle ++
      ", color_range: [" ++ listed (g.colors.map fun c => "Color(" ++ toString c.rgba ++ ")") ++
      "], input_range: [" ++ listed (g.inputs.map Layout.described.text) ++ "] \x7d"
  | .media m =>
    "MediaSource \x7b url: " ++ Text.quoted m.url ++ ", description: " ++
      Text.quoted m.description ++ ", duration: " ++ Layout.described.text m.duration ++
      ", repeat_count: " ++ toString m.repeatCount ++ ", offset: " ++
      Layout.described.text m.offset ++ " \x7d"
  | .styledText raw => "StyledText<" ++ raw ++ ">"

end Styling

end LiveTemplate
