import LiveTemplate.Fault
import LiveTemplate.Scope.Basic
/-!
# Looking into containers

Arrays are read by position and maps by key; both have a size.  The four forms of a container —
fixed, editable, a view of a document, the bindings of a scope — answer alike, because each
answer is taken from one of two lists: the elements of a value and its entries.  A value has
elements or entries but never both, and a value that is no container has neither.

Text has a size too, the length of its encoding in bytes, but neither positions nor keys.
-/

set_option autoImplicit false

namespace LiveTemplate.Value

/-- The elements of an array. -/
def items (store : Store) : Value → List Value
  | .array _ items => items
  | .mutableArray ref => store.cellItems ref
  | .view ref document path => match shown document path with
    | .array children => children.mapIdx fun i child =>
        ofJson ref document (Pointer.extend path (toString i).toList) child
    | _ => []
  | _ => []

/-- The entries of a map, sorted by key. -/
def entries (store : Store) : Value → List (String × Value)
  | .map _ entries => entries
  | .mutableMap ref => store.cellEntries ref
  | .view ref document path => match shown document path with
    | .object fields => fields.map fun (key, child) =>
        (key, ofJson ref document (Pointer.extend path key.toList) child)
    | _ => []
  | .context _ scope =>
    if store.isLive scope then (store.names scope).map fun name => (name, store.get scope name)
    else []
  | _ => []

/-- The number of elements or entries; for text, of bytes. -/
def size (store : Store) : Value → Nat
  | .text s => s.utf8ByteSize
  | v => (v.items store).length + (v.entries store).length

/-- The element at a position, null outside. -/
def item (store : Store) (i : Nat) (v : Value) : Value := ((v.items store)[i]?).getD .null

/-- Has the value an entry of this key? -/
def has (store : Store) (key : String) (v : Value) : Bool :=
  (Json.lookup? key (v.entries store)).isSome

/-- The entry of a key, null if there is none. -/
def field (store : Store) (key : String) (v : Value) : Value :=
  (Json.lookup? key (v.entries store)).getD .null

/-- The entry of a key, or else a value given for that case. -/
def fieldOr (store : Store) (key : String) (v otherwise : Value) : Value :=
  if v.has store key then v.field store key else otherwise

/-- The keys, sorted. -/
def keys (store : Store) (v : Value) : List String := (v.entries store).map fun entry => entry.1

/-- The elements of a value that has to be an array. -/
def requireItems (store : Store) (v : Value) : Except Fault (List Value) :=
  if v.kind == .array then .ok (v.items store) else .error (.wrongKind "array" v.kind)

end LiveTemplate.Value
