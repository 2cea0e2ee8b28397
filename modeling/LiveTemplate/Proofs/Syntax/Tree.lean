import LiveTemplate.Expression.Template
/-!
# Syntax trees

The program makes no syntax tree: it puts an expression together while it reads it.  This file has
the tree that a textbook would make, and the textbook's way from a tree to a value, which builds
the parts of a tree from the left to the right and then the tree itself.  It is the measure that
the machine of regions is held against.

There is one constructor for each construct of the language, so that a tree can be compared with a
text by eye.  What is special about a construct is said once, where its value is built: several
parts of a text are merged and a single one stays what it is, lists become arrays, a map is made of
the array of its keys and values in turn, and groups, indexes and bindings are their content.
-/

set_option autoImplicit false

namespace LiveTemplate

/-- A template as a tree. -/
inductive Tree where
  /-- An operand that has no parts.  The empty text also stands for a binding without content. -/
  | leaf (leaf : Leaf)
  /-- An expression in a text. -/
  | binding (content : Tree)
  /-- A quoted text, or the whole template, by its segments. -/
  | text (segments : List Tree)
  | group (content : Tree)
  | array (items : List Tree)
  | map (entries : List (Tree × Tree))
  | field (container : Tree) (name : String)
  | index (container key : Tree)
  | call (callee : Tree) (arguments : List Tree)
  | sign (op : Operator) (operand : Tree)
  | binary (op : Operator) (left right : Tree)
  | choice (condition whenTrue whenFalse : Tree)

namespace Tree

/-- The value of a text by the values of its segments. -/
def joined (store : Store) : List Value → Run Value
  | [] => pure (.text "")
  | [segment] => pure segment
  | segments => Operator.build store .merge segments

mutual
/-- The value of a tree, built from the leaves upwards. -/
def build (store : Store) (scope : ScopeId) : Tree → Run Value
  | .leaf operand => Template.ofLeaf store scope operand
  | .binding content => build store scope content
  | .text segments => do joined store (← buildAll store scope segments)
  | .group content => build store scope content
  | .array items => do Operator.build store .array (← buildAll store scope items)
  | .map entries => do
    let flat ← Operator.build store .array (← buildEntries store scope entries)
    Operator.build store .map [flat]
  | .field container name => do
    let container ← build store scope container
    Operator.build store .field [container, .text name]
  | .index container key => do
    let container ← build store scope container
    let key ← build store scope key
    Operator.build store .index [container, key]
  | .call callee arguments => do
    let callee ← build store scope callee
    let arguments ← Operator.build store .array (← buildAll store scope arguments)
    Operator.build store .call [callee, arguments]
  | .sign op operand => do
    let operand ← build store scope operand
    Operator.build store op [operand]
  | .binary op left right => do
    let left ← build store scope left
    let right ← build store scope right
    Operator.build store op [left, right]
  | .choice condition whenTrue whenFalse => do
    let condition ← build store scope condition
    let whenTrue ← build store scope whenTrue
    let whenFalse ← build store scope whenFalse
    Operator.build store .choose [condition, whenTrue, whenFalse]

/-- The values of trees. -/
def buildAll (store : Store) (scope : ScopeId) : List Tree → Run (List Value)
  | [] => pure []
  | tree :: rest => do
    let value ← build store scope tree
    return value :: (← buildAll store scope rest)

/-- The values of keys and the values that belong to them, in turn. -/
def buildEntries (store : Store) (scope : ScopeId) : List (Tree × Tree) → Run (List Value)
  | [] => pure []
  | (key, tree) :: rest => do
    let key ← build store scope key
    let value ← build store scope tree
    return key :: value :: (← buildEntries store scope rest)
end

end Tree

end LiveTemplate
