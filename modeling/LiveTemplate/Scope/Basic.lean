import LiveTemplate.Value.Basic
/-!
# Scopes and the store

A scope binds names to values.  Scopes form trees: every scope but a root has a parent, and a
name that a scope does not bind is looked up in its parent.  A scope knows its whole lineage,
itself first and the root last, so that a lookup is a search along a list.  The nearest scope
that binds a name owns it, and whatever the other scopes of the lineage bind is shadowed.

A binding is constant, or may be written by the user, or by the system only.

Scopes are held from outside.  A scope lives as long as it or a scope below it is held; values
refer to scopes without holding them, and a scope that is gone binds nothing for them.

The store has the scopes, which of them are held, and the contents of the containers that can be
edited in place.
-/

set_option autoImplicit false

namespace LiveTemplate

/-- Who may change a binding. -/
inductive BindingKind where
  | constant
  | user
  | system
deriving Repr, DecidableEq

/-- A bound value. -/
structure Binding where
  value : Value
  kind : BindingKind

/-- A scope. -/
structure Scope where
  /-- The scope itself, its parent, and so on up to the root. -/
  lineage : List ScopeId
  /-- What the scope itself binds, sorted by name. -/
  bindings : List (String × Binding)
  viewport : Viewport
  agent : Agent

/-- The content of a container that can be edited. -/
inductive Cell where
  | items (values : List Value)
  | entries (values : List (String × Value))

/-- The mistake of asking for a name that nobody binds. -/
structure UnboundName where
  name : String
deriving Repr, DecidableEq

/-- What is said about the mistake. -/
def UnboundName.message (e : UnboundName) : String := "Unknown binding: " ++ e.name

/-- Scopes and editable containers. -/
structure Store where
  /-- The scopes, a scope's number being its place. -/
  scopes : List Scope
  /-- The scopes held from outside. -/
  held : List ScopeId
  /-- The contents of the editable containers. -/
  cells : List (Ref × Cell)

namespace Store

/-- A store without scopes. -/
def empty : Store := ⟨[], [], []⟩

/-- The scope of a number. -/
def scope? (store : Store) (id : ScopeId) : Option Scope := store.scopes[id]?

/-- A scope and its ancestors, itself first. -/
def lineage (store : Store) (id : ScopeId) : List ScopeId :=
  match store.scope? id with
  | some scope => scope.lineage
  | none => []

/-- Does the scope live? -/
def isLive (store : Store) (id : ScopeId) : Bool :=
  store.held.any fun holder => (store.lineage holder).contains id

/-- What a scope itself binds to a name. -/
def ownBinding? (store : Store) (id : ScopeId) (name : String) : Option Binding :=
  store.scope? id >>= fun scope => Json.lookup? name scope.bindings

/-- The scope that owns a name, as seen from a scope, and the binding. -/
def owned? (store : Store) (id : ScopeId) (name : String) : Option (ScopeId × Binding) :=
  (store.lineage id).findSome? fun ancestor =>
    (store.ownBinding? ancestor name).map fun binding => (ancestor, binding)

/-- The binding that a scope sees under a name. -/
def binding? (store : Store) (id : ScopeId) (name : String) : Option Binding :=
  (store.owned? id name).map fun found => found.2

/-- Does a scope see a binding of the name? -/
def has (store : Store) (id : ScopeId) (name : String) : Bool := (store.binding? id name).isSome

/-- The value that a scope sees under a name. -/
def get? (store : Store) (id : ScopeId) (name : String) : Option Value :=
  (store.binding? id name).map fun binding => binding.value

/-- The value that a scope sees under a name, null if there is none. -/
def get (store : Store) (id : ScopeId) (name : String) : Value :=
  (store.get? id name).getD .null

/-- Who may change what a scope sees under a name. -/
def kind? (store : Store) (id : ScopeId) (name : String) : Option BindingKind :=
  (store.binding? id name).map fun binding => binding.kind

/-- The value that a scope must see under a name. -/
def require (store : Store) (id : ScopeId) (name : String) : Except UnboundName Value :=
  match store.get? id name with
  | some value => .ok value
  | none => .error ⟨name⟩

/-- The first scope of a lineage that binds a name; another scope if none does. -/
def firstBinder (store : Store) (name : String) (otherwise : ScopeId) : List ScopeId → ScopeId
  | [] => otherwise
  | ancestor :: rest =>
    if (store.ownBinding? ancestor name).isSome then ancestor
    else store.firstBinder name otherwise rest

/-- The scope whose changes concern a name seen from a scope: the owner, or the scope itself if
nobody owns the name. -/
def concerned (store : Store) (id : ScopeId) (name : String) : ScopeId :=
  store.firstBinder name id (store.lineage id)

/-- Add a name to a sorted list of names, once. -/
def insertName (name : String) : List String → List String
  | [] => [name]
  | other :: rest =>
    if name == other then other :: rest
    else if name < other then name :: other :: rest
    else other :: insertName name rest

/-- All names that a scope sees, sorted. -/
def names (store : Store) (id : ScopeId) : List String :=
  (store.lineage id).foldl (fun names ancestor =>
    match store.scope? ancestor with
    | some scope => scope.bindings.foldl (fun names binding => insertName binding.1 names) names
    | none => names) []

/-- Bind a name in a scope, whatever it was bound to there. -/
def bind (store : Store) (id : ScopeId) (name : String) (binding : Binding) : Store :=
  { store with scopes := store.scopes.modify id fun scope =>
      { scope with bindings := Json.insertField name binding scope.bindings } }

/-- Add a root scope without bindings. -/
def addRoot (store : Store) (viewport : Viewport) (agent : Agent) : Store × ScopeId :=
  let id := store.scopes.length
  ({ store with scopes := store.scopes ++ [⟨[id], [], viewport, agent⟩] }, id)

/-- Add a scope below another one.  It sees the viewport and the agent of its parent. -/
def addChild (store : Store) (parent : ScopeId) : Store × ScopeId :=
  let id := store.scopes.length
  let (viewport, agent) := match store.scope? parent with
    | some scope => (scope.viewport, scope.agent)
    | none => ({}, {})
  ({ store with scopes := store.scopes ++ [⟨id :: store.lineage parent, [], viewport, agent⟩] },
    id)

/-- Hold a scope. -/
def hold (store : Store) (id : ScopeId) : Store :=
  { store with held := id :: store.held }

/-- Let go of a scope. -/
def release (store : Store) (id : ScopeId) : Store :=
  { store with held := store.held.erase id }

/-- The viewport of a scope. -/
def viewport (store : Store) (id : ScopeId) : Viewport :=
  match store.scope? id with
  | some scope => scope.viewport
  | none => {}

/-- The content of an editable container. -/
def cell? (store : Store) (ref : Ref) : Option Cell :=
  (store.cells.find? fun cell => cell.1 == ref).map fun cell => cell.2

/-- Set the content of an editable container. -/
def setCell (store : Store) (ref : Ref) (cell : Cell) : Store :=
  { store with cells := (ref, cell) :: store.cells.filter fun old => old.1 != ref }

/-- The elements of an editable array. -/
def cellItems (store : Store) (ref : Ref) : List Value :=
  match store.cell? ref with
  | some (.items values) => values
  | _ => []

/-- The entries of an editable map. -/
def cellEntries (store : Store) (ref : Ref) : List (String × Value) :=
  match store.cell? ref with
  | some (.entries values) => values
  | _ => []

end Store

end LiveTemplate
