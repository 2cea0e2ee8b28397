import LiveTemplate.Expression.Template
import LiveTemplate.Library.Catalog
import LiveTemplate.Value.Equality
import LiveTemplate.Watch.Table
/-!
# The world: scopes, writes and watches

A watch is an expression with the value that it last had.  Whenever a name that the expression
looks up is written, the watch is recalculated, and a watch counts how often that changed its
value.  Watches are held from outside, and a watch that is let go hears of nothing any more.

Each scope has a table of the watches that are to hear of its names.  A watch is listed with the
scope that owns a name at the time the watch is made.

Writing changes a binding where it is, which may be a scope further up, and only if the writer
may: the user writes what is for the user, and the system also what is for the system alone.
Writing the value that is there already does nothing, successfully.
-/

set_option autoImplicit false

namespace LiveTemplate

/-- An expression whose value is kept up to date. -/
structure Watch where
  expression : Value
  /-- The value it last had. -/
  value : Value
  /-- How many recalculations changed the value. -/
  changes : Nat
  isHeld : Bool

/-- Everything there is. -/
structure World where
  store : Store
  effects : Effects
  /-- The watches, a watch's number being its place. -/
  watches : List Watch
  /-- For each scope the watches of its names. -/
  tables : List WatchTable

/-- A change of the world that may end in a fault.  What had changed until then stays. -/
abbrev Action := ExceptT Fault (StateM World)

namespace World

/-- The world in which nothing is. -/
def initial (seed : UInt64) : World := ⟨Store.empty, Effects.initial seed, [], []⟩

/-- Does somebody hold the watch? -/
def isLive (world : World) (id : WatchId) : Bool :=
  match world.watches[id]? with
  | some watch => watch.isHeld
  | none => false

/-- The table of a scope. -/
def table (world : World) (scope : ScopeId) : WatchTable :=
  (world.tables[scope]?).getD WatchTable.empty

/-- Change the table of a scope. -/
def modifyTable (world : World) (scope : ScopeId) (change : WatchTable → WatchTable) : World :=
  { world with tables := world.tables.modify scope change }

/-- Change a watch. -/
def modifyWatch (world : World) (id : WatchId) (change : Watch → Watch) : World :=
  { world with watches := world.watches.modify id change }

/-- The number of live watches listed with a scope. -/
def watchCount (world : World) (scope : ScopeId) : Nat :=
  (world.table scope).size world.isLive

end World

namespace Action

/-- Run a computation on the present store. -/
def compute {α : Type} (computation : Store → Run α) : Action α := fun world =>
  let (result, effects) := (computation world.store).run world.effects
  (result, { world with effects := effects })

/-- Change the store. -/
def modifyStore (change : Store → Store) : Action Unit :=
  modify fun world => { world with store := change world.store }

/-- The present store. -/
def store : Action Store := do return (← get).store

/-! ## Scopes -/

/-- Bind a name in a scope. -/
def put (scope : ScopeId) (name : String) (kind : BindingKind) (value : Value) : Action Unit :=
  modifyStore fun store => store.bind scope name ⟨value, kind⟩

/-- Bind a resource: a constant that expressions name with an `@`. -/
def putResource (scope : ScopeId) (name : String) (value : Value) : Action Unit :=
  put scope ("@" ++ name) .constant value

/-- Bind constants in a scope. -/
def putAll (scope : ScopeId) : List (String × Value) → Action Unit
  | [] => pure ()
  | (name, value) :: rest => do
    put scope name .constant value
    putAll scope rest

/-- Add a scope to the world, and hold it. -/
def addScope (add : Store → Store × ScopeId) : Action ScopeId :=
  modifyGet fun world =>
    let (store, id) := add world.store
    (id, { world with store := store.hold id, tables := world.tables ++ [WatchTable.empty] })

/-- Make a root scope with all that a root scope binds, and hold it. -/
def newRoot (viewport : Viewport) (agent : Agent) : Action ScopeId := do
  let id ← addScope fun store => store.addRoot viewport agent
  putAll id (← compute fun _ => Library.rootBindings viewport agent)
  return id

/-- Make a scope below another one, and hold it. -/
def newChild (parent : ScopeId) : Action ScopeId := addScope fun store => store.addChild parent

/-- Let go of a scope. -/
def release (scope : ScopeId) : Action Unit := modifyStore fun store => store.release scope

/-! ## Watches -/

/-- Recalculate a watch, and tell whether its value changed. -/
def recalculate (id : WatchId) : Action Bool := do
  match (← get).watches[id]? with
  | none => return false
  | some watch =>
    let value ← compute fun store => watch.expression.eval store
    if watch.value.same (← store) value then return false
    modify fun world => world.modifyWatch id fun watch =>
      { watch with value := value, changes := watch.changes + 1 }
    return true

/-- Recalculate watches one after the other. -/
def recalculateAll : List WatchId → Action Unit
  | [] => pure ()
  | id :: rest => do
    let _ ← recalculate id
    recalculateAll rest

/-- Recalculate the live watches of a name of a scope.  The table loses the dead ones first. -/
def notifyScope (scope : ScopeId) (name : String) : Action Unit := do
  let world ← get
  let live := (world.table scope).live world.isLive name
  set (world.modifyTable scope fun table => table.compact world.isLive name)
  recalculateAll live

/-- Have a watch hear of a name of a scope. -/
def register (scope : ScopeId) (name : String) (id : WatchId) : Action Unit :=
  modify fun world => world.modifyTable scope fun table => table.add name id

/-- Have a watch hear of each name where it is owned, as seen from a scope. -/
def registerAll (scope : ScopeId) (id : WatchId) : List String → Action Unit
  | [] => pure ()
  | name :: rest => do
    register ((← store).concerned scope name) name id
    registerAll scope id rest

/-- Make a watch of an expression, and hold it. -/
def watchExpression (expression : Value) : Action WatchId := do
  let value ← compute fun store => expression.eval store
  modifyGet fun world =>
    (world.watches.length, { world with watches := world.watches ++ [⟨expression, value, 0, true⟩] })

/-- Watch a template, and have the watch hear of every name that it looks up. -/
def watch (scope : ScopeId) (source : String) : Action (Except SyntaxError WatchId) := do
  match ← compute fun store => Template.read store scope source with
  | .error e => return .error e
  | .ok expression =>
    let id ← watchExpression expression
    registerAll scope id (expression.symbols (← store))
    return .ok id

/-- Let go of a watch. -/
def unwatch (id : WatchId) : Action Unit :=
  modify fun world => world.modifyWatch id fun watch => { watch with isHeld := false }

/-! ## Writes -/

/-- Write to a binding if its kind is one of some.  Tells whether that was so. -/
def writeIf (mayWrite : BindingKind → Bool) (scope : ScopeId) (name : String) (value : Value) :
    Action Bool := do
  let store ← store
  match store.owned? scope name with
  | none => return false
  | some (owner, binding) =>
    if !mayWrite binding.kind then return false
    if binding.value.same store value then return true
    put owner name binding.kind value
    notifyScope owner name
    return true

/-- Write as the user. -/
def userWrite (scope : ScopeId) (name : String) (value : Value) : Action Bool :=
  writeIf (· == .user) scope name value

/-- Write as the system. -/
def systemWrite (scope : ScopeId) (name : String) (value : Value) : Action Bool :=
  writeIf (· != .constant) scope name value

/-! ## Editable containers -/

/-- Make an editable array. -/
def newArray (items : List Value) : Action Value := do
  let ref ← compute fun _ => Run.fresh
  modifyStore fun store => store.setCell ref (.items items)
  return .mutableArray ref

/-- Make an editable map. -/
def newMap (entries : List (String × Value)) : Action Value := do
  let ref ← compute fun _ => Run.fresh
  modifyStore fun store => store.setCell ref (.entries (Json.sortFields entries))
  return .mutableMap ref

/-- Edit an array in place; the edit may give something back. -/
def editArray {α : Type} (v : Value) (edit : List Value → List Value × α) : Action α := do
  match v with
  | .mutableArray ref =>
    let (items, result) := edit ((← store).cellItems ref)
    modifyStore fun store => store.setCell ref (.items items)
    return result
  | v => if v.kind == .array then throw .fixedArray else throw (.wrongKind "array" v.kind)

/-- Edit a map in place; the edit may give something back. -/
def editMap {α : Type} (v : Value)
    (edit : List (String × Value) → List (String × Value) × α) : Action α := do
  match v with
  | .mutableMap ref =>
    let (entries, result) := edit ((← store).cellEntries ref)
    modifyStore fun store => store.setCell ref (.entries entries)
    return result
  | v => if v.kind == .map then throw .fixedMap else throw (.wrongKind "map" v.kind)

end Action

end LiveTemplate
