import LiveTemplate.Value.Basic
/-!
# Comparison

Two values compare as less, equal or greater.  Numbers and dimensions compare by their numbers,
unless one is absolute and the other relative; texts compare character by character.  Truth
values, colors, nulls and automatic dimensions are equal or else less.  Every other pair is
less, in whatever order it stands.

A number that is not a number makes every comparison false but inequality.
-/

set_option autoImplicit false

namespace LiveTemplate.Value

/-- Comparison of doubles; what is neither equal nor less is greater. -/
def compareNumbers (x y : Float) : Ordering :=
  if x == y then .eq else if x < y then .lt else .gt

/-- Comparison of texts by the codes of their characters. -/
def compareTexts (x y : String) : Ordering :=
  if x == y then .eq else if x < y then .lt else .gt

/-- Equal or else less. -/
def equalOrLess (same : Bool) : Ordering := if same then .eq else .lt

/-- Comparison of values. -/
def compare : Value → Value → Ordering
  | .number x, .number y => compareNumbers x y
  | .number x, .absolute y => compareNumbers x y
  | .number x, .relative y => compareNumbers x y
  | .absolute x, .number y => compareNumbers x y
  | .absolute x, .absolute y => compareNumbers x y
  | .relative x, .number y => compareNumbers x y
  | .relative x, .relative y => compareNumbers x y
  | .text x, .text y => compareTexts x y
  | .bool x, .bool y => equalOrLess (x == y)
  | .color x, .color y => equalOrLess (x == y)
  | .null, .null => .eq
  | .auto, .auto => .eq
  | _, _ => .lt

/-- Is this a number that is not a number? -/
def isNaN : Value → Bool
  | .number x => x.isNaN
  | _ => false

/-- A comparison that holds for some outcomes and never for not-a-number. -/
def holds (accepted : Ordering → Bool) (a b : Value) : Bool :=
  !a.isNaN && !b.isNaN && accepted (compare a b)

/-- Less. -/
def less (a b : Value) : Bool := holds (· == .lt) a b

/-- Less or equal. -/
def lessEqual (a b : Value) : Bool := holds (· != .gt) a b

/-- Greater. -/
def greater (a b : Value) : Bool := holds (· == .gt) a b

/-- Greater or equal. -/
def greaterEqual (a b : Value) : Bool := holds (· != .lt) a b

/-- Equal in comparison. -/
def equal (a b : Value) : Bool := holds (· == .eq) a b

/-- Not equal in comparison. -/
def notEqual (a b : Value) : Bool := !equal a b

end LiveTemplate.Value
