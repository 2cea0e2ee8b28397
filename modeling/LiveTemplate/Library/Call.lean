import LiveTemplate.Calendar
import LiveTemplate.Effects
import LiveTemplate.Library.Math
import LiveTemplate.Library.Sequence
/-!
# Calling functions

A call takes any number of arguments of any kind.  Wrong arguments are no fault: where a number
was asked for the result is not a number, and elsewhere it is null or an empty container.  The
impure functions record each of their calls.

Easing curves can be called with one argument, the time.  Anything else that is called gives
null.
-/

set_option autoImplicit false

namespace LiveTemplate

namespace Calendar

/-- A part of a moment as a number. -/
def Moment.field (moment : Moment) : TimeField → Float
  | .year => Number.ofInt moment.year
  | .month => Number.ofInt moment.month
  | .date => Number.ofInt moment.date
  | .weekDay => Number.ofInt moment.weekDay
  | .hours => Number.ofInt moment.hours
  | .minutes => Number.ofInt moment.minutes
  | .seconds => Number.ofInt moment.seconds
  | .milliseconds => Number.ofInt moment.milliseconds

end Calendar

namespace Library

/-- The elements of a value of the kind of arrays. -/
def itemsOf? (store : Store) (v : Value) : Option (List Value) :=
  if v.kind == .array then some (v.items store) else none

/-- A part of a time. -/
def timeField (field : TimeField) (time : Float) : Except Fault Value :=
  match Calendar.read time with
  | .timeless => .ok Value.nan
  | .tooLate => .error .sumOverflow
  | .moment moment => .ok (.number (moment.field field))

/-- A range as an array; the empty one is the one that all share. -/
def rangeArray (start stop step : Float) : Run Value :=
  match range start stop step with
  | [] => pure Value.emptyArray
  | numbers => Run.array (numbers.map .number)

/-- Call a function of the library.  The reference is that of the function value. -/
def call (store : Store) (ref : Ref) : Builtin → List Value → Run Value
  | .math function, [x] => pure (.number (applyMath function x.toNumber))
  | .math _, _ => pure Value.nan
  | .mathTest test, [x] => pure (.bool (applyTest test x.toNumber))
  | .mathTest _, _ => pure (.bool false)
  | .mathPair pair, [x, y] => pure (.number (applyPair pair x.toNumber y.toNumber))
  | .mathPair _, _ => pure Value.nan
  | .mathFloat, [x] => pure (.number x.toNumber)
  | .mathFloat, _ => pure Value.nan
  | .mathClamp, [low, value, high] =>
    pure (.number (clamp low.toNumber value.toNumber high.toNumber))
  | .mathClamp, _ => pure Value.nan
  | .mathHypot, args => pure (.number (hypot (args.map Value.toNumber)))
  | .mathInt, [value] => pure (int 10 value)
  | .mathInt, [value, base] => pure (int base.toInt32 value)
  | .mathInt, _ => pure Value.nan
  | .mathMax, args => pure (.number (greatest (args.map Value.toNumber)))
  | .mathMin, args => pure (.number (least (args.map Value.toNumber)))
  | .random, _ => do
    Run.record ref .random
    return .number (← Run.draw)
  | .lowerCase, [s] => pure (.text (Text.lowerCase s.toText))
  | .lowerCase, _ => pure .null
  | .upperCase, [s] => pure (.text (Text.upperCase s.toText))
  | .upperCase, _ => pure .null
  | .textSlice, s :: bounds => match sliceBy? s.toText.toList bounds with
    | some chars => pure (.text (String.ofList chars))
    | none => pure .null
  | .textSlice, [] => pure .null
  | .textLength, [s] => pure (.number (Number.ofInt s.toText.length))
  | .textLength, _ => pure .null
  | .charAt, [s, i] => pure (.text (charAt s.toText i.toNumber))
  | .charAt, _ => pure .null
  | .indexOf, [array, value] => match itemsOf? store array with
    | some items => pure (.number (Number.ofInt (indexOf store items value)))
    | none => pure (.number (-1.0))
  | .indexOf, _ => pure .null
  | .range, [stop] => rangeArray 0.0 stop.toNumber 1.0
  | .range, [start, stop] => rangeArray start.toNumber stop.toNumber 1.0
  | .range, [start, stop, step] => rangeArray start.toNumber stop.toNumber step.toNumber
  | .range, _ => pure .null
  | .arraySlice, array :: bounds => match itemsOf? store array with
    | some items => match sliceBy? items bounds with
      | some part => Run.array part
      | none => pure .null
    | none => pure .null
  | .arraySlice, [] => pure .null
  | .keys, [v] =>
    if v.kind.isMapLike then Run.array ((v.keys store).map .text) else pure Value.emptyArray
  | .keys, _ => pure .null
  | .time field, [t] => Run.ofExcept (timeField field t.toNumber)
  | .time _, _ => pure Value.nan
  | .counter, _ => do
    Run.record ref .counter
    return .number (Number.ofInt ((← get).count .counter))
  | .gather, args => Run.array args

end Library

/-- Call a value. -/
def Value.call (store : Store) (args : List Value) : Value → Run Value
  | .function ref builtin => Library.call store ref builtin args
  | .easing _ curve => match args with
    | [t] => pure (.number (curve.progress t.toNumber))
    | _ => pure Value.nan
  | _ => pure .null

end LiveTemplate
