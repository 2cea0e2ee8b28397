/-!
# The functions of the library

Every function that an expression can call is listed here with its name.  The listing is closed:
a function value carries an entry of it and nothing else, so that values stay plain data.

All functions but two are pure.  Random numbers and the counter give a different result with
every call, so calls of these two are never computed ahead of evaluation.  The counter and
`gather` are for hosts that observe how often and with what arguments a template calls out; they
belong to no map of the library.
-/

set_option autoImplicit false

namespace LiveTemplate

/-- The functions of one number. -/
inductive MathFunction where
  | abs
  | acos
  | acosh
  | asin
  | asinh
  | atan
  | atanh
  | cbrt
  | ceil
  | cos
  | cosh
  | exp
  | exp2
  | expm1
  | floor
  | log
  | log1p
  | log10
  | log2
  | round
  | sign
  | sin
  | sinh
  | sqrt
  | tan
  | tanh
  | trunc
deriving Repr, DecidableEq

namespace MathFunction

/-- All functions of one number. -/
def all : List MathFunction := [
  .abs, .acos, .acosh, .asin, .asinh, .atan, .atanh, .cbrt, .ceil, .cos, .cosh, .exp, .exp2,
  .expm1, .floor, .log, .log1p, .log10, .log2, .round, .sign, .sin, .sinh, .sqrt, .tan, .tanh,
  .trunc]

/-- The name within the library. -/
def name : MathFunction → String
  | .abs => "abs"
  | .acos => "acos"
  | .acosh => "acosh"
  | .asin => "asin"
  | .asinh => "asinh"
  | .atan => "atan"
  | .atanh => "atanh"
  | .cbrt => "cbrt"
  | .ceil => "ceil"
  | .cos => "cos"
  | .cosh => "cosh"
  | .exp => "exp"
  | .exp2 => "exp2"
  | .expm1 => "expm1"
  | .floor => "floor"
  | .log => "log"
  | .log1p => "log1p"
  | .log10 => "log10"
  | .log2 => "log2"
  | .round => "round"
  | .sign => "sign"
  | .sin => "sin"
  | .sinh => "sinh"
  | .sqrt => "sqrt"
  | .tan => "tan"
  | .tanh => "tanh"
  | .trunc => "trunc"

end MathFunction

/-- The tests of one number. -/
inductive MathTest where
  | isFinite
  | isInfinite
  | isNaN
deriving Repr, DecidableEq

/-- The name within the library. -/
def MathTest.name : MathTest → String
  | .isFinite => "isFinite"
  | .isInfinite => "isInf"
  | .isNaN => "isNaN"

/-- The functions of two numbers. -/
inductive MathPair where
  | atan2
  | pow
deriving Repr, DecidableEq

/-- The name within the library. -/
def MathPair.name : MathPair → String
  | .atan2 => "atan2"
  | .pow => "pow"

/-- The parts of a time. -/
inductive TimeField where
  | year
  | month
  | date
  | weekDay
  | hours
  | minutes
  | seconds
  | milliseconds
deriving Repr, DecidableEq

/-- The name within the library. -/
def TimeField.name : TimeField → String
  | .year => "year"
  | .month => "month"
  | .date => "date"
  | .weekDay => "weekDay"
  | .hours => "hours"
  | .minutes => "minutes"
  | .seconds => "seconds"
  | .milliseconds => "milliseconds"

/-- The functions. -/
inductive Builtin where
  | math (function : MathFunction)
  | mathTest (test : MathTest)
  | mathPair (pair : MathPair)
  | mathFloat
  | mathClamp
  | mathHypot
  | mathInt
  | mathMax
  | mathMin
  | random
  | lowerCase
  | upperCase
  | textSlice
  | textLength
  | charAt
  | indexOf
  | range
  | arraySlice
  | keys
  | time (field : TimeField)
  /-- Counts its calls. -/
  | counter
  /-- Gives its arguments as an array. -/
  | gather
deriving Repr, DecidableEq

namespace Builtin

/-- The full name of a function: the library it belongs to, a point, and its own name. -/
def name : Builtin → String
  | .math function => "Math." ++ function.name
  | .mathTest test => "Math." ++ test.name
  | .mathPair pair => "Math." ++ pair.name
  | .mathFloat => "Math.float"
  | .mathClamp => "Math.clamp"
  | .mathHypot => "Math.hypot"
  | .mathInt => "Math.int"
  | .mathMax => "Math.max"
  | .mathMin => "Math.min"
  | .random => "Math.random"
  | .lowerCase => "String.toLowerCase"
  | .upperCase => "String.toUpperCase"
  | .textSlice => "String.slice"
  | .textLength => "String.length"
  | .charAt => "String.charAt"
  | .indexOf => "Array.indexOf"
  | .range => "Array.range"
  | .arraySlice => "Array.slice"
  | .keys => "Map.keys"
  | .time field => "Time." ++ field.name
  | .counter => "tick"
  | .gather => "echo"

/-- Does the result depend on the arguments alone? -/
def isPure : Builtin → Bool
  | .random | .counter => false
  | _ => true

end Builtin

end LiveTemplate
