import LiveTemplate.Library.Builtin
import LiveTemplate.Measure.Basic
import LiveTemplate.Operator.Basic
import LiveTemplate.Styling.Basic
import LiveTemplate.Styling.Easing
import LiveTemplate.Value.Kind
/-!
# Values

A value is a scalar, a container, a piece of an expression, something to call, or one of the
things that styles are made of.  All are plain data.

Everything but the scalars carries a reference, the identity of the value: two values are one
exactly if their references are.  A container that can be edited holds its reference only, and
its content is kept in the store, so that an edit shows through every alias.

A JSON document is not copied into containers.  Its arrays and objects are seen through views:
a view holds the whole document and the path to a place in it.  The children of a view are views
of the same document with a longer path, so that the reference of the document and the path
identify a view.
-/

set_option autoImplicit false

namespace LiveTemplate

/-- The identity of a value. -/
abbrev Ref := Nat

/-- The identity of a scope. -/
abbrev ScopeId := Nat

/-- A value of the expression language. -/
inductive Value where
  | null
  | bool (value : Bool)
  | number (value : Float)
  | text (value : String)
  | absolute (value : Float)
  | relative (value : Float)
  | auto
  | color (value : Color)
  | array (ref : Ref) (items : List Value)
  /-- A map with its entries sorted by key. -/
  | map (ref : Ref) (entries : List (String × Value))
  | mutableArray (ref : Ref)
  | mutableMap (ref : Ref)
  /-- An array or object of a JSON document, at the end of a path. -/
  | view (ref : Ref) (document : Json) (path : List Char)
  /-- An operator that waits to be applied. -/
  | node (ref : Ref) (op : Operator) (operands : List Value)
  /-- A name that waits to be looked up in a scope. -/
  | symbol (ref : Ref) (scope : ScopeId) (name : String)
  | function (ref : Ref) (builtin : Builtin)
  | easing (ref : Ref) (curve : Easing)
  /-- The bindings of a scope as a map. -/
  | context (ref : Ref) (scope : ScopeId)
  | styling (ref : Ref) (value : Styling)
  | filter (ref : Ref) (name : String) (properties : List (String × Value))
  /-- Something of which only kind and label are known. -/
  | handle (ref : Ref) (kind : Kind) (label : String)

instance : Inhabited Value := ⟨.null⟩

namespace Styling

/-- The kind of a styling value. -/
def kind : Styling → Kind
  | .rect _ => .rect
  | .radii _ => .radii
  | .transform _ => .matrix
  | .gradient _ => .gradient
  | .media _ => .media
  | .styledText _ => .styledText

end Styling

namespace Value

/-- Not a number. -/
def nan : Value := .number Number.nan

/-- The references of the two empty containers that all values share. -/
def emptyArrayRef : Ref := 0

@[inherit_doc emptyArrayRef]
def emptyMapRef : Ref := 1

/-- The first reference that belongs to nobody. -/
def firstFreeRef : Ref := 2

/-- The empty array that all values share. -/
def emptyArray : Value := .array emptyArrayRef []

/-- The empty map that all values share. -/
def emptyMap : Value := .map emptyMapRef []

/-- The place that a view shows. -/
def shown (document : Json) (path : List Char) : Json :=
  (Pointer.resolve? path document).getD .null

/-- The kind of a value. -/
def kind : Value → Kind
  | .null => .null
  | .bool _ => .bool
  | .number _ => .number
  | .text _ => .text
  | .absolute _ => .absolute
  | .relative _ => .relative
  | .auto => .auto
  | .color _ => .color
  | .array .. => .array
  | .map .. => .map
  | .mutableArray _ => .array
  | .mutableMap _ => .map
  | .view _ document path => match shown document path with
    | .object _ => .map
    | _ => .array
  | .node .. => .node
  | .symbol .. => .symbol
  | .function .. => .function
  | .easing .. => .easing
  | .context .. => .context
  | .styling _ value => value.kind
  | .filter .. => .filter
  | .handle _ kind _ => kind

/-- The identity of a value: its reference and, for a view, the path.  Scalars have none. -/
def identity? : Value → Option (Ref × List Char)
  | .array ref _ | .map ref _ | .mutableArray ref | .mutableMap ref | .node ref _ _
  | .symbol ref _ _ | .function ref _ | .easing ref _ | .context ref _ | .styling ref _
  | .filter ref _ _ | .handle ref _ _ => some (ref, [])
  | .view ref _ path => some (ref, path)
  | _ => none

/-- A dimension as a value. -/
def ofDimension : Dimension → Value
  | .absolute v => .absolute v
  | .relative v => .relative v
  | .auto => .auto

/-- The value of a place in a document.  Arrays and objects become views. -/
def ofJson (ref : Ref) (document : Json) (path : List Char) : Json → Value
  | .null => .null
  | .bool b => .bool b
  | .int n => .number (Number.ofInt n)
  | .float x => .number x
  | .text s => .text s
  | .array _ | .object _ => .view ref document path

/-- Is the value computed by evaluation? -/
def isEvaluable (v : Value) : Bool := v.kind.isEvaluable

/-- Can the value be edited in place? -/
def isMutable : Value → Bool
  | .mutableArray _ | .mutableMap _ => true
  | _ => false

/-- The name that a symbol waits to look up. -/
def symbolName? : Value → Option String
  | .symbol _ _ name => some name
  | _ => none

end Value

end LiveTemplate
