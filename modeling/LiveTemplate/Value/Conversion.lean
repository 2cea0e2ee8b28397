import LiveTemplate.Color.Reading
import LiveTemplate.Measure.Reading
import LiveTemplate.Number.Numeral
import LiveTemplate.Value.Access
/-!
# Conversions

Every value converts to text, to a number, to a truth value, to a color and to a dimension.
Conversions are total: where there is nothing to convert they give the empty text, not-a-number,
the transparent color, or no length at all.
-/

set_option autoImplicit false

namespace LiveTemplate.Value

/-- The text of a value.  Containers and expressions have none. -/
def toText : Value → String
  | .bool b => if b then "true" else "false"
  | .number x => Number.display x
  | .text s => s
  | .absolute v => (Dimension.absolute v).text
  | .relative v => (Dimension.relative v).text
  | .auto => Dimension.auto.text
  | .color c => c.text
  | .styling _ value => value.text
  | _ => ""

/-- The number of a value.  Text is read, and a truth value counts zero or one. -/
def toNumber : Value → Float
  | .bool b => if b then 1.0 else 0.0
  | .number x => x
  | .text s => Numeral.value s
  | .absolute v => v
  | .relative v => v
  | _ => Number.nan

/-- The value as an integer of thirty-two bits.  Text is read in base ten; numbers are rounded
and clamped. -/
def toInt32 : Value → Int
  | .text s => Integer.ofTextInt32 10 s
  | v => Number.toInt32 (Number.round v.toNumber)

/-- The value as an integer of sixty-four bits, text being read in a base. -/
def toInt64 (base : Nat) : Value → Int
  | .text s => Integer.ofText base s
  | v => Number.toInt64 (Number.round v.toNumber)

/-- Does the value count as true? -/
def truthy : Value → Bool
  | .null => false
  | .bool b => b
  | .number x => x != 0.0 && !x.isNaN
  | .text s => !s.isEmpty
  | .absolute v => v != 0.0
  | .relative v => v != 0.0
  | .auto => true
  | .color c => c.rgba != 0
  | .styling _ value => value.truthy
  | _ => true

/-- Is there nothing to the value? -/
def isEmpty (store : Store) : Value → Bool
  | .null => true
  | .styling _ value => value.isEmpty
  | .filter .. => false
  | v => match v.kind with
    | .bool | .number | .absolute | .relative | .auto | .color => false
    | _ => v.size store == 0

/-- The color of a value.  A number is the word of a color; text that is no color is
transparent. -/
def toColor : Value → Color
  | .color c => c
  | .number x => ⟨Number.toUInt32 x⟩
  | .text s => match Color.read s with
    | .ok c => c
    | .error _ => Color.transparent
  | _ => Color.transparent

/-- The dimension of a value, text being read against a viewport. -/
def toDimension (viewport : Viewport) : Value → Dimension
  | .absolute v => .absolute v
  | .relative v => .relative v
  | .auto => .auto
  | .number x => .absolute x
  | .text s => (Dimension.read? viewport s).getD (.absolute 0.0)
  | _ => .absolute 0.0

end LiveTemplate.Value
