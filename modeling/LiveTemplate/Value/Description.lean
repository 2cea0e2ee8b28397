import LiveTemplate.Value.Snapshot
/-!
# Descriptions of values

The description of a value is for developers: it shows the kind and the structure, text in
quotes and numbers with six places.  A view of a document is described by the JSON text of what
it shows, and the bindings of a scope by their number.
-/

set_option autoImplicit false

namespace LiveTemplate.Value

/-- Texts in brackets, each followed by a comma and a blank. -/
def listing (texts : List String) : String :=
  "[" ++ String.join (texts.map fun text => text ++ ", ") ++ "]"

/-- The description of a container: its name, its size and its content. -/
def sized (name : String) (texts : List String) : String :=
  name ++ "<size=" ++ toString texts.length ++ ">" ++ listing texts

mutual
/-- The description of a frozen value. -/
def describeFrozen (store : Store) : Value → String
  | .null => "null"
  | .bool b => if b then "true" else "false"
  | .number x => Number.sixPlaces x
  | .text s => "'" ++ s ++ "'"
  | .absolute v => "AbsDim<" ++ Number.display v ++ ">"
  | .relative v => "RelDim<" ++ Number.display v ++ ">"
  | .auto => "AutoDim"
  | .color c => "Color<" ++ c.text ++ ">"
  | .array _ items => sized "Array" (describeItems store items)
  | .map _ entries => sized "Map" (describeEntries store entries)
  | .mutableArray _ => sized "Array" []
  | .mutableMap _ => sized "Map" []
  | .view ref document path =>
    "JSON<size=" ++ toString ((Value.view ref document path).size store) ++ ">" ++
      (shown document path).compact
  | .node _ op operands => "Node<" ++ op.name ++ ">" ++ listing (describeItems store operands)
  | .symbol _ _ name => "BoundSymbol<" ++ name ++ ">"
  | .function _ builtin => "Function<" ++ builtin.name ++ ">"
  | .easing _ curve => "Easing<" ++ curve.described ++ ">"
  | .context _ scope =>
    if store.isLive scope then
      "Context<" ++ toString (store.names scope).length ++ " bindings>"
    else "Context<released>"
  | .styling _ value => value.described
  | .filter _ name properties =>
    "Filter \x7b kind: " ++ Text.quoted name ++ ", properties: \x7b" ++
      Styling.listed (describeProperties store properties) ++ "\x7d \x7d"
  | .handle _ _ label => "Opaque<" ++ label ++ ">"

/-- The descriptions of elements. -/
def describeItems (store : Store) : List Value → List String
  | [] => []
  | v :: rest => describeFrozen store v :: describeItems store rest

/-- The descriptions of entries, each in braces. -/
def describeEntries (store : Store) : List (String × Value) → List String
  | [] => []
  | (key, v) :: rest =>
    ("\x7b'" ++ key ++ "': " ++ describeFrozen store v ++ "\x7d") :: describeEntries store rest

/-- The descriptions of properties, with the names in quotation marks. -/
def describeProperties (store : Store) : List (String × Value) → List String
  | [] => []
  | (key, v) :: rest =>
    (Text.quoted key ++ ": " ++ describeFrozen store v) :: describeProperties store rest
end

/-- The description of a value. -/
def describe (store : Store) (v : Value) : String := describeFrozen store (v.frozen store)

end LiveTemplate.Value
