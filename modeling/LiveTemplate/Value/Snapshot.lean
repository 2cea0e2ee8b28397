import LiveTemplate.Value.Access
/-!
# Snapshots

Operations that go through a whole value work on a snapshot of it, where every part is in its
place and the store is no longer needed.  There are two.  The *frozen* value has the present
content of every editable container in its place.  The *expanded* value also has the content of
every view of a document, so that only fixed containers are left, and whatever is said of a
value by recursion on its parts can be said of the expanded value.

Editable containers may hold each other.  Freezing goes into as many of them, one inside the
other, as there are; only a container that holds itself is not exhausted by that, and then the
innermost one is left as it is.
-/

set_option autoImplicit false

namespace LiveTemplate.Value

mutual
/-- Replace every editable container by a fixed one, its content being treated by `inside`. -/
def freezeWith (store : Store) (inside : Value → Value) : Value → Value
  | .mutableArray ref => .array ref ((store.cellItems ref).map inside)
  | .mutableMap ref => .map ref ((store.cellEntries ref).map fun (key, v) => (key, inside v))
  | .array ref items => .array ref (freezeItems store inside items)
  | .map ref entries => .map ref (freezeEntries store inside entries)
  | .node ref op operands => .node ref op (freezeItems store inside operands)
  | .filter ref name properties => .filter ref name (freezeEntries store inside properties)
  | v => v

/-- Freeze the elements of a list. -/
def freezeItems (store : Store) (inside : Value → Value) : List Value → List Value
  | [] => []
  | v :: rest => freezeWith store inside v :: freezeItems store inside rest

/-- Freeze the values of a list of entries. -/
def freezeEntries (store : Store) (inside : Value → Value) :
    List (String × Value) → List (String × Value)
  | [] => []
  | (key, v) :: rest => (key, freezeWith store inside v) :: freezeEntries store inside rest
end

/-- Freeze through a number of editable containers that hold each other. -/
def freezeTo (store : Store) : Nat → Value → Value
  | 0 => id
  | depth + 1 => freezeWith store (freezeTo store depth)

/-- The value with the present content of all editable containers. -/
def frozen (store : Store) (v : Value) : Value := freezeTo store (store.cells.length + 1) v

mutual
/-- A document as a value of fixed containers. -/
def copyJson (ref : Ref) : Json → Value
  | .null => .null
  | .bool b => .bool b
  | .int n => .number (Number.ofInt n)
  | .float x => .number x
  | .text s => .text s
  | .array items => .array ref (copyItems ref items)
  | .object fields => .map ref (copyFields ref fields)

/-- The elements of an array as values. -/
def copyItems (ref : Ref) : List Json → List Value
  | [] => []
  | item :: rest => copyJson ref item :: copyItems ref rest

/-- The fields of an object as entries. -/
def copyFields (ref : Ref) : List (String × Json) → List (String × Value)
  | [] => []
  | (key, value) :: rest => (key, copyJson ref value) :: copyFields ref rest
end

mutual
/-- Replace every view by a copy of what it shows. -/
def copyViews : Value → Value
  | .view ref document path => copyJson ref (shown document path)
  | .array ref items => .array ref (copyViewsItems items)
  | .map ref entries => .map ref (copyViewsEntries entries)
  | .node ref op operands => .node ref op (copyViewsItems operands)
  | .filter ref name properties => .filter ref name (copyViewsEntries properties)
  | v => v

/-- Replace the views in the elements of a list. -/
def copyViewsItems : List Value → List Value
  | [] => []
  | v :: rest => copyViews v :: copyViewsItems rest

/-- Replace the views in the values of a list of entries. -/
def copyViewsEntries : List (String × Value) → List (String × Value)
  | [] => []
  | (key, v) :: rest => (key, copyViews v) :: copyViewsEntries rest
end

/-- The value with only fixed containers in it. -/
def expanded (store : Store) (v : Value) : Value := (v.frozen store).copyViews

end LiveTemplate.Value
