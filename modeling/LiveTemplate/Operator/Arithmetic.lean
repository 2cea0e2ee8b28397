import LiveTemplate.Value.Conversion
/-!
# Arithmetic

Numbers, absolute and relative dimensions are calculated with.  A sum or difference of a number
and a dimension is a dimension, and two dimensions must be of one kind.  A product needs a
number on one side.  A dividend of any kind may be divided by a number, and two dimensions of
one kind have a quotient that is a number.  Everything else is not a number, but for sums: there
the texts of both sides are put together.

Texts are merged in another way where literal text and expressions stand side by side: an empty
text leaves the other side as it is, whatever its kind.
-/

set_option autoImplicit false

namespace LiveTemplate.Value

/-- The operand of a plus sign: numbers and dimensions stay. -/
def plus : Value → Value
  | .number x => .number x
  | .absolute v => .absolute v
  | .relative v => .relative v
  | _ => nan

/-- The operand of a minus sign. -/
def negate : Value → Value
  | .number x => .number (-x)
  | .absolute v => .absolute (-v)
  | .relative v => .relative (-v)
  | _ => nan

/-- The product. -/
def multiply : Value → Value → Value
  | .number x, .number y => .number (x * y)
  | .number x, .absolute y => .absolute (x * y)
  | .absolute y, .number x => .absolute (x * y)
  | .number x, .relative y => .relative (x * y)
  | .relative y, .number x => .relative (x * y)
  | _, _ => nan

/-- A quotient or a remainder. -/
def divideBy (op : Float → Float → Float) : Value → Value → Value
  | .number x, .number y => .number (op x y)
  | .absolute x, .number y => .absolute (op x y)
  | .relative x, .number y => .relative (op x y)
  | .absolute x, .absolute y => .number (op x y)
  | .relative x, .relative y => .number (op x y)
  | _, _ => nan

/-- A sum or a difference; none if the operands are not numeric or do not go together. -/
def combine? (op : Float → Float → Float) : Value → Value → Option Value
  | .number x, .number y => some (.number (op x y))
  | .number x, .absolute y => some (.absolute (op x y))
  | .absolute x, .number y => some (.absolute (op x y))
  | .absolute x, .absolute y => some (.absolute (op x y))
  | .number x, .relative y => some (.relative (op x y))
  | .relative x, .number y => some (.relative (op x y))
  | .relative x, .relative y => some (.relative (op x y))
  | _, _ => none

/-- Both texts, one after the other. -/
def append (a b : Value) : Value := .text (a.toText ++ b.toText)

/-- The sum, or else both texts together. -/
def add (a b : Value) : Value := (combine? (· + ·) a b).getD (append a b)

/-- The difference. -/
def subtract (a b : Value) : Value := (combine? (· - ·) a b).getD nan

/-- Is this the empty text? -/
def isEmptyText : Value → Bool
  | .text s => s.isEmpty
  | _ => false

/-- Two neighbours in a text with expressions. -/
def merge (a b : Value) : Value :=
  if a.isEmptyText then b else if b.isEmptyText then a else append a b

/-- All that stands side by side in a text, merged from the left. -/
def mergeAll : List Value → Value
  | [] => .text ""
  | first :: rest => rest.foldl merge first

end LiveTemplate.Value
