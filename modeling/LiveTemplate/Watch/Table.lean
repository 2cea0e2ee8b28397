import LiveTemplate.Value.Basic
/-!
# Tables of watches

A table lists under each name the watches that are to hear of it, in the order in which they
were added.  A watch may be listed under several names, and several times under one.

The table does not hold its watches.  Those that nobody holds any more are dead: they are not
counted, and they leave the table when their name is looked up or the table is pruned.
-/

set_option autoImplicit false

namespace LiveTemplate

/-- The identity of a watch. -/
abbrev WatchId := Nat

/-- Watches listed under names; no list is empty. -/
abbrev WatchTable := List (String × List WatchId)

namespace WatchTable

/-- A table that lists nothing. -/
def empty : WatchTable := []

/-- The watches listed under a name. -/
def listed (name : String) : WatchTable → List WatchId
  | [] => []
  | (other, watches) :: rest => if other == name then watches else listed name rest

/-- List a watch under a name, after those that are there. -/
def add (name : String) (watch : WatchId) : WatchTable → WatchTable
  | [] => [(name, [watch])]
  | (other, watches) :: rest =>
    if other == name then (other, watches ++ [watch]) :: rest
    else (other, watches) :: add name watch rest

/-- The table without the lists that are empty. -/
def dropEmpty (table : WatchTable) : WatchTable :=
  table.filter fun entry => !entry.2.isEmpty

/-- Remove the dead watches under a name. -/
def compact (isLive : WatchId → Bool) (name : String) (table : WatchTable) : WatchTable :=
  dropEmpty (table.map fun (other, watches) =>
    (other, if other == name then watches.filter isLive else watches))

/-- The live watches under a name. -/
def live (isLive : WatchId → Bool) (name : String) (table : WatchTable) : List WatchId :=
  (table.listed name).filter isLive

/-- Remove all dead watches. -/
def prune (isLive : WatchId → Bool) (table : WatchTable) : WatchTable :=
  dropEmpty (table.map fun (name, watches) => (name, watches.filter isLive))

/-- All watches of the table. -/
def watches (table : WatchTable) : List WatchId := table.flatMap fun entry => entry.2

/-- The number of live watches, each counted as often as it is listed. -/
def size (isLive : WatchId → Bool) (table : WatchTable) : Nat :=
  (table.watches.filter isLive).length

end WatchTable

end LiveTemplate
