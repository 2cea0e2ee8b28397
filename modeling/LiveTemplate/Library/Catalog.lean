import LiveTemplate.Effects
import LiveTemplate.Library.Math
/-!
# What a root scope binds

Every root scope starts with the same names, all of them constant: the viewport and the
environment as maps, the two times, and the five maps of the library.  Each function in these
maps is a value of its own, so that two root scopes share none.
-/

set_option autoImplicit false

namespace LiveTemplate.Library

/-- The functions of each map of the library, under the name of the map. -/
def catalog : List (String × List (String × Builtin)) := [
  ("Math",
    MathFunction.all.map (fun f => (f.name, .math f)) ++ [
      ("float", .mathFloat), ("isFinite", .mathTest .isFinite), ("isInf", .mathTest .isInfinite),
      ("isNaN", .mathTest .isNaN), ("atan2", .mathPair .atan2), ("pow", .mathPair .pow),
      ("clamp", .mathClamp), ("hypot", .mathHypot), ("int", .mathInt), ("max", .mathMax),
      ("min", .mathMin), ("random", .random)]),
  ("String", [
    ("toLowerCase", .lowerCase), ("toUpperCase", .upperCase), ("slice", .textSlice),
    ("length", .textLength), ("charAt", .charAt)]),
  ("Array", [("indexOf", .indexOf), ("range", .range), ("slice", .arraySlice)]),
  ("Map", [("keys", .keys)]),
  ("Time", [
    ("year", .time .year), ("month", .time .month), ("date", .time .date),
    ("weekDay", .time .weekDay), ("hours", .time .hours), ("minutes", .time .minutes),
    ("seconds", .time .seconds), ("milliseconds", .time .milliseconds)])]

/-- The values in a map of the library that are no functions. -/
def constantsOf (name : String) : List (String × Value) :=
  if name == "Math" then constants.map fun (name, x) => (name, .number x) else []

/-- A map of functions, each a new value, and of constants. -/
def functionMap (functions : List (String × Builtin)) (constants : List (String × Value)) :
    Run Value := do
  let entries ← functions.mapM fun (name, builtin) => do
    return (name, Value.function (← Run.fresh) builtin)
  Run.map (Json.sortFields (entries ++ constants))

/-- The viewport as a map. -/
def viewportEntries (v : Viewport) : List (String × Value) := Json.sortFields [
  ("width", .number v.scaledWidth), ("height", .number v.scaledHeight),
  ("pixelWidth", .number v.width), ("pixelHeight", .number v.height),
  ("dpi", .number v.density), ("shape", .text v.shape.text), ("theme", .text v.theme),
  ("mode", .text v.mode)]

/-- The environment as a map. -/
def environmentEntries (agent : Agent) : List (String × Value) := Json.sortFields [
  ("agentName", .text agent.name), ("agentVersion", .text agent.version),
  ("disallowVideo", .bool agent.disallowVideo), ("reduceMotion", .bool agent.reduceMotion)]

/-- What a root scope binds. -/
def rootBindings (viewport : Viewport) (agent : Agent) : Run (List (String × Value)) := do
  let own := [
    ("viewport", ← Run.map (viewportEntries viewport)),
    ("environment", ← Run.map (environmentEntries agent)),
    ("utcTime", .number agent.utcTime),
    ("localTime", .number (agent.utcTime + agent.localTimeAdjustment))]
  let maps ← catalog.mapM fun (name, functions) => do
    return (name, ← functionMap functions (constantsOf name))
  return own ++ maps

end LiveTemplate.Library
