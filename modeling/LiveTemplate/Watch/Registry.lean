import LiveTemplate.Watch.World
/-!
# A table beside the world

Every scope has a table of watches, and writing a binding tells them.  A table may also be kept apart,
for names that nobody has to bind, and then whoever keeps it tells its watches.

The table holds no watch.  So a watch may be let go at any time, by others, and it may die under
several names at once; looking up one of these names removes it there and nowhere else.
-/

set_option autoImplicit false

namespace LiveTemplate

/-- A world, and a table that belongs to no scope. -/
structure Registry where
  world : World
  table : WatchTable

namespace Registry

/-- A change of a world and of the table beside it that may end in a fault.  What had changed until
then stays. -/
abbrev Task := ExceptT Fault (StateM Registry)

/-- The number of live watches of the table, each counted as often as it is listed. -/
def size (registry : Registry) : Nat := registry.table.size registry.world.isLive

/-- Act on the world. -/
def act {α : Type} (action : Action α) : Task α := fun registry =>
  let (result, world) := action.run registry.world
  (result, { registry with world := world })

/-- List a watch under a name. -/
def add (name : String) (id : WatchId) : Task Unit :=
  modify fun registry => { registry with table := registry.table.add name id }

/-- The live watches of a name.  The table loses the dead ones of this name. -/
def live (name : String) : Task (List WatchId) :=
  modifyGet fun registry =>
    (registry.table.live registry.world.isLive name,
      { registry with table := registry.table.compact registry.world.isLive name })

/-- Recalculate the live watches of a name, and tell how many there are. -/
def notify (name : String) : Task Nat := do
  let ids ← live name
  act (Action.recalculateAll ids)
  return ids.length

/-- Remove all dead watches from the table, and tell how many there were. -/
def prune : Task Nat :=
  modifyGet fun registry =>
    let table := registry.table.prune registry.world.isLive
    (registry.table.watches.length - table.watches.length, { registry with table := table })

end Registry

end LiveTemplate
