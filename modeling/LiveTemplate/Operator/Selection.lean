import LiveTemplate.Value.Access
/-!
# Selecting from containers

A field is selected from a map by its key, with a point or in brackets.  An array has one field,
its `length`, and elements, which are selected in brackets by number: the number is rounded,
halves away from zero, and a negative one counts from the end.  Whatever is not there is null.
-/

set_option autoImplicit false

namespace LiveTemplate.Value

/-- The length of an array as a number. -/
def lengthOf (store : Store) (v : Value) : Value := .number (Number.ofInt (v.size store))

/-- The element of an array that a number selects. -/
def selectItem (store : Store) (v : Value) (x : Float) : Value :=
  let length : Int := v.size store
  let rounded := Number.toInt64 (Number.round x)
  let position := if rounded < 0 then rounded + length else rounded
  if 0 ≤ position ∧ position < length then v.item store position.toNat else .null

/-- The field after a point. -/
def selectField (store : Store) (v key : Value) : Value :=
  match key with
  | .text name =>
    if v.kind.isMapLike then v.field store name
    else if v.kind == .array && name == "length" then lengthOf store v
    else .null
  | _ => .null

/-- The element or field in brackets. -/
def selectIndex (store : Store) (v key : Value) : Value :=
  match key with
  | .number x => if v.kind == .array then selectItem store v x else .null
  | key => selectField store v key

end LiveTemplate.Value
