import LiveTemplate.Text.Case
import LiveTemplate.Value.Equality
import LiveTemplate.Value.Conversion
/-!
# The functions of texts, arrays and maps

Texts are sequences of characters here, and share their rule for slices with arrays.  A slice is
given by where it starts and where it ends: a bound loses its fraction, a negative one counts
from the end, and either is moved into the sequence.  A slice that would end before it starts is
empty.

`range` lists the numbers from a start in equal steps, up to but not including an end.  It never
builds more than `100000` of them.
-/

set_option autoImplicit false

namespace LiveTemplate.Library

/-- The position that a bound denotes in a sequence of some length. -/
def clampIndex (x : Float) (length : Nat) : Nat :=
  let position := Number.toInt64 x
  let position := if position < 0 then position + length else position
  (max 0 (min position length)).toNat

/-- The part of a sequence between two bounds; a bound that is not given is the end it belongs
to. -/
def slice {α : Type} (sequence : List α) (start stop : Option Float) : List α :=
  let first := match start with
    | some x => clampIndex x sequence.length
    | none => 0
  let last := match stop with
    | some x => clampIndex x sequence.length
    | none => sequence.length
  (sequence.drop first).take (last - first)

/-- The part of a sequence between bounds that are given as a list of at most two. -/
def sliceBy? {α : Type} (sequence : List α) : List Value → Option (List α)
  | [] => some (slice sequence none none)
  | [a] => some (slice sequence (some a.toNumber) none)
  | [a, b] => some (slice sequence (some a.toNumber) (some b.toNumber))
  | _ => none

/-- The character at a position, or nothing outside. -/
def charAt (s : String) (x : Float) : String :=
  let chars := s.toList
  let position := Number.toInt64 x
  let position := if position < 0 then position + chars.length else position
  if position < 0 then ""
  else match chars[position.toNat]? with
    | some c => String.singleton c
    | none => ""

/-- The position of the first element that equals a value, minus one if there is none. -/
def indexOf (store : Store) (items : List Value) (v : Value) : Int :=
  match items.findIdx? fun item => item.same store v with
  | some i => i
  | none => -1

/-- The greatest number of elements of a range. -/
def maxRange : Float := 100000.0

/-- The numbers from a start in steps up to an end; none if their count is not positive or too
large. -/
def range (start stop step : Float) : List Float :=
  let count := Number.ceil ((stop - start) / step)
  if !count.isFinite || count ≤ 0.0 || count > maxRange then []
  else (List.range (Number.toInt64 count).toNat).map fun (i : Nat) => start + step * Number.ofInt i

end LiveTemplate.Library
