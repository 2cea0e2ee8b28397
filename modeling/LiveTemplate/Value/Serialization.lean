import LiveTemplate.Value.Snapshot
/-!
# Values as JSON documents

Plain data becomes the document one expects, where integral numbers of moderate size are
integers.  Numbers that JSON cannot write become `null`, and dimensions that it cannot write
become zero.  A view becomes the document that it shows, integers and all.  What has no JSON
form — expressions, functions, handles — becomes a text that says so.
-/

set_option autoImplicit false

namespace LiveTemplate.Value

/-- A finite number: an integer while it is integral and below `9 · 10 ^ 15`. -/
def jsonNumber (x : Float) : Json :=
  if Number.isIntegral x && x.abs < 9.0e15 then .int (Number.toInt64 x) else .float x

/-- The text in place of what has no JSON form. -/
def unserializable : Json := .text "UNABLE TO SERIALIZE"

mutual
/-- The JSON form of a frozen value. -/
def serializeFrozen : Value → Json
  | .null => .null
  | .bool b => .bool b
  | .number x => if x.isFinite then jsonNumber x else .null
  | .text s => .text s
  | .absolute v => if v.isFinite then jsonNumber v else .int 0
  | .relative v => if v.isFinite then .text (Dimension.relative v).text else .int 0
  | .auto => .text Dimension.auto.text
  | .color c => .text c.text
  | .array _ items => .array (serializeItems items)
  | .map _ entries => .object (serializeEntries entries)
  | .mutableArray _ => .array []
  | .mutableMap _ => .object []
  | .view _ document path => shown document path
  | .styling _ value => value.toJson
  | .filter _ name properties => .ofFields (("type", .text name) :: serializeEntries properties)
  | _ => unserializable

/-- The JSON forms of elements. -/
def serializeItems : List Value → List Json
  | [] => []
  | v :: rest => serializeFrozen v :: serializeItems rest

/-- The JSON forms of entries. -/
def serializeEntries : List (String × Value) → List (String × Json)
  | [] => []
  | (key, v) :: rest => (key, serializeFrozen v) :: serializeEntries rest
end

/-- The JSON form of a value. -/
def serialize (store : Store) (v : Value) : Json := serializeFrozen (v.frozen store)

end LiveTemplate.Value
