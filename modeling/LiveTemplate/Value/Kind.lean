/-!
# Kinds of values

Every value has a kind, and a kind has a name.  The inline kinds are the scalars: a value of
such a kind is its content and nothing else.  A value of any other kind has an identity beside
its content, and for some of these kinds the identity is all that equality looks at.

Two kinds answer to evaluation, two to a call, and three to a lookup by key.
-/

set_option autoImplicit false

namespace LiveTemplate

/-- What a value is. -/
inductive Kind where
  | null
  | bool
  | number
  | text
  | array
  | map
  | node
  | function
  | symbol
  | absolute
  | relative
  | auto
  | color
  | gradient
  | filter
  | media
  | rect
  | radii
  | styledText
  | matrix
  | transform
  | easing
  | graphic
  | pattern
  | component
  | context
deriving Repr, DecidableEq

namespace Kind

/-- The name of a kind. -/
def name : Kind → String
  | .null => "null"
  | .bool => "bool"
  | .number => "number"
  | .text => "string"
  | .array => "array"
  | .map => "map"
  | .node => "node"
  | .function => "function"
  | .symbol => "bound-symbol"
  | .absolute => "absolute-dimension"
  | .relative => "relative-dimension"
  | .auto => "auto-dimension"
  | .color => "color"
  | .gradient => "gradient"
  | .filter => "filter"
  | .media => "media-source"
  | .rect => "rect"
  | .radii => "radii"
  | .styledText => "styled-text"
  | .matrix => "transform-2d"
  | .transform => "transform"
  | .easing => "easing"
  | .graphic => "graphic"
  | .pattern => "graphic-pattern"
  | .component => "component"
  | .context => "context"

/-- All kinds. -/
def all : List Kind := [
  .null, .bool, .number, .text, .array, .map, .node, .function, .symbol, .absolute, .relative,
  .auto, .color, .gradient, .filter, .media, .rect, .radii, .styledText, .matrix, .transform,
  .easing, .graphic, .pattern, .component, .context]

/-- The kind of a name. -/
def ofName? (name : String) : Option Kind := all.find? fun kind => kind.name == name

/-- Is a value of this kind nothing but its content? -/
def isInline : Kind → Bool
  | .null | .bool | .number | .text | .absolute | .relative | .auto | .color => true
  | _ => false

/-- Are two values of this kind equal only if they are one? -/
def comparesByIdentity : Kind → Bool
  | .node | .function | .symbol | .transform | .easing | .graphic | .pattern | .component
  | .context => true
  | _ => false

/-- Is the value of such a value computed by evaluation? -/
def isEvaluable : Kind → Bool
  | .node | .symbol => true
  | _ => false

/-- Can such a value be called? -/
def isCallable : Kind → Bool
  | .function | .easing => true
  | _ => false

/-- Does such a value answer lookups by key? -/
def isMapLike : Kind → Bool
  | .map | .component | .context => true
  | _ => false

end Kind

end LiveTemplate
