import LiveTemplate.Proofs.Watch.Course
import LiveTemplate.Proofs.Watch.Shrinking
import LiveTemplate.Watch.Registry
/-!
# A table stands for its registrations

Registering a watch under a name is a *registration*.  The plain list of all registrations, the first
one first and none ever taken out, says what a table should answer: those of a name whose watch lives,
in their order.  A table forgets registrations, some at every look-up and all dead ones when it is
pruned; but it forgets none whose watch lives, and who is dead stays dead.  So a table stands for its
registrations through whatever is done with it and with its world.

One thing breaks off: an evaluation may overflow while watches are told.  Those told before have been
recalculated then, and the others have not.  The table is none the worse for it.
-/

set_option autoImplicit false

namespace LiveTemplate

open LiveTemplate.Action (Recalculates BreaksOff)

/-- A name, and a watch that was listed under it. -/
abbrev Registration := String × WatchId

namespace World

/-- The live watches that are registered under a name, in the order of the registrations. -/
def alive (world : World) (registrations : List Registration) (name : String) : List WatchId :=
  ((registrations.filter fun r => r.1 == name).map Prod.snd).filter world.isLive

/-- The number of registrations whose watch lives. -/
def aliveCount (world : World) (registrations : List Registration) : Nat :=
  registrations.countP fun r => world.isLive r.2

theorem alive_append (world : World) (registrations more : List Registration) (name : String) :
    world.alive (registrations ++ more) name =
      world.alive registrations name ++ world.alive more name := by
  simp [alive]

theorem isLive_unheld (world : World) (id other : WatchId) :
    (world.modifyWatch id fun watch => { watch with isHeld := false }).isLive other =
      (world.isLive other && other != id) := by
  unfold isLive
  by_cases hother : other = id
  · subst hother
    simp only [modifyWatch, List.getElem?_modify, if_true]
    cases world.watches[other]? <;> simp
  · rw [watches_modifyWatch_other hother]
    simp [hother]

end World

namespace WatchTable

theorem mem_watches_of_listed {table : WatchTable} {name : String} {id : WatchId}
    (h : id ∈ table.listed name) : id ∈ table.watches := by
  induction table with
  | nil => cases h
  | cons entry rest ih =>
    obtain ⟨other, watches⟩ := entry
    unfold WatchTable.watches at ih ⊢
    rw [List.flatMap_cons]
    unfold listed at h
    split at h
    · exact List.mem_append_left _ h
    · exact List.mem_append_right _ (ih h)

end WatchTable

/-- If nobody comes alive, those alive later are among those alive before. -/
theorem filter_of_fading {isLive isLive' : WatchId → Bool} {ids : List WatchId}
    (h : ∀ id ∈ ids, isLive' id = true → isLive id = true) :
    ids.filter isLive' = (ids.filter isLive).filter isLive' := by
  rw [List.filter_filter]
  refine List.filter_congr fun id hid => ?_
  cases hlive : isLive' id with
  | false => rfl
  | true => rw [h id hid hlive, Bool.and_self]

namespace Registry

open Run (run_bind run_pure)

/-! ## Standing for registrations -/

/-- The table lists the live watches as they were registered, and lists nobody else. -/
structure Stands (registry : Registry) (registrations : List Registration) : Prop where
  sound : registry.table.Sound
  live : ∀ name, registry.table.live registry.world.isLive name =
    registry.world.alive registrations name
  watches : (registry.table.watches.filter registry.world.isLive).Perm
    ((registrations.map Prod.snd).filter registry.world.isLive)
  known : ∀ id ∈ registry.table.watches, id ∈ registrations.map Prod.snd

theorem stands_empty (world : World) : Stands ⟨world, WatchTable.empty⟩ [] :=
  ⟨WatchTable.sound_empty, fun _ => rfl, .refl _, fun _ hid => nomatch hid⟩

namespace Stands

variable {registry : Registry} {registrations : List Registration}
  (h : registry.Stands registrations)

include h

theorem size : registry.size = registry.world.aliveCount registrations := by
  have hlength := h.watches.length_eq
  rw [← List.countP_eq_length_filter, ← List.countP_eq_length_filter, List.countP_map] at hlength
  rw [Registry.size, WatchTable.size, ← List.countP_eq_length_filter, hlength]
  rfl

/-- It is enough that nobody comes alive who is registered. -/
theorem fade {world : World} (hfading : ∀ id ∈ registrations.map Prod.snd, world.isLive id = true →
    registry.world.isLive id = true) : Stands ⟨world, registry.table⟩ registrations where
  sound := h.sound
  live name := by
    have hlisted : (registry.table.listed name).filter world.isLive =
        ((registry.table.listed name).filter registry.world.isLive).filter world.isLive :=
      filter_of_fading fun id hid => hfading id (h.known id (WatchTable.mem_watches_of_listed hid))
    have hregistered : world.alive registrations name =
        (registry.world.alive registrations name).filter world.isLive := by
      refine filter_of_fading fun id hid => hfading id ?_
      exact (List.filter_sublist.map Prod.snd).subset hid
    rw [hregistered, ← h.live name]
    exact hlisted
  watches := by
    have hwatches := h.watches.filter world.isLive
    rw [← filter_of_fading fun id hid => hfading id (h.known id hid),
      ← filter_of_fading hfading] at hwatches
    exact hwatches
  known := h.known

theorem add (name : String) (id : WatchId) :
    Stands { registry with table := registry.table.add name id } (registrations ++ [(name, id)]) where
  sound := h.sound.add name id
  live n := by
    have hlive := h.live n
    unfold WatchTable.live at hlive ⊢
    rw [World.alive_append, ← hlive, WatchTable.listed_add]
    by_cases hn : n = name
    · subst hn
      simp [World.alive]
    · simp [World.alive, hn, Ne.symm hn]
  watches := by
    have hadded := (WatchTable.watches_add name id registry.table).filter registry.world.isLive
    rw [List.filter_append] at hadded
    rw [List.map_append, List.filter_append]
    exact hadded.trans (h.watches.append_right _)
  known other hother := by
    have hmem := (WatchTable.watches_add name id registry.table).subset hother
    rw [List.map_append]
    rcases List.mem_append.mp hmem with hmem | hmem
    · exact List.mem_append_left _ (h.known other hmem)
    · exact List.mem_append_right _ hmem

theorem compact (name : String) :
    Stands { registry with table := registry.table.compact registry.world.isLive name }
      registrations where
  sound := h.sound.compact _ name
  live n := by
    have hlive := h.live n
    unfold WatchTable.live at hlive ⊢
    rw [h.sound.listed_compact, ← hlive]
    split
    · exact (filter_of_fading fun _ _ hlive => hlive).symm
    · rfl
  watches := by
    rw [WatchTable.filter_watches_compact]
    exact h.watches
  known id hid := h.known id (WatchTable.mem_watches_compact hid)

theorem prune :
    Stands { registry with table := registry.table.prune registry.world.isLive } registrations where
  sound := h.sound.prune _
  live n := by
    have hlive := h.live n
    unfold WatchTable.live at hlive ⊢
    rw [h.sound.listed_prune, ← hlive]
    exact (filter_of_fading fun _ _ hlive => hlive).symm
  watches := by
    rw [WatchTable.watches_prune, ← filter_of_fading fun _ _ hlive => hlive]
    exact h.watches
  known id hid := by
    rw [WatchTable.watches_prune] at hid
    exact h.known id (List.mem_filter.mp hid).1

end Stands

/-! ## What is done with a table -/

/-- What is done with a table, and with the watches that it may list. -/
inductive Step where
  | add (name : String) (id : WatchId)
  | live (name : String)
  | notify (name : String)
  | prune
  | unwatch (id : WatchId)

namespace Step

/-- The step itself. -/
def perform : Step → Task Unit
  | add name id => Registry.add name id
  | live name => do
    let _ ← Registry.live name
    return ()
  | notify name => do
    let _ ← Registry.notify name
    return ()
  | prune => do
    let _ ← Registry.prune
    return ()
  | unwatch id => act (Action.unwatch id)

/-- What the step registers. -/
def registers : Step → List Registration
  | add name id => [(name, id)]
  | live _ => []
  | notify _ => []
  | prune => []
  | unwatch _ => []

/-- Is the watch held after the step if it was before? -/
def spares : Step → WatchId → Bool
  | unwatch id, other => other != id
  | _, _ => true

end Step

/-- The registry after some steps, whether they succeed or not. -/
def after (registry : Registry) : List Step → Registry
  | [] => registry
  | step :: rest => ((step.perform.run registry).2).after rest

variable {registry : Registry} {registrations : List Registration}

theorem run_prune (registry : Registry) : prune.run registry =
    (.ok (registry.table.watches.countP fun id => !registry.world.isLive id),
      { registry with table := registry.table.prune registry.world.isLive }) := by
  rw [← WatchTable.length_sub_prune]
  rfl

/-- Telling the watches of a name goes on to the end, or breaks off. -/
theorem notify_cases (name : String) (registry : Registry) : ∃ world,
    ((notify name).run registry = (.ok (registry.table.live registry.world.isLive name).length,
        ⟨world, registry.table.compact registry.world.isLive name⟩) ∧
      Recalculates (registry.table.live registry.world.isLive name) registry.world world) ∨
    ((notify name).run registry = (.error .sumOverflow,
        ⟨world, registry.table.compact registry.world.isLive name⟩) ∧
      BreaksOff (registry.table.live registry.world.isLive name) registry.world world) := by
  have hlive : (live name).run registry = (.ok (registry.table.live registry.world.isLive name),
      { registry with table := registry.table.compact registry.world.isLive name }) := rfl
  have hact : ∀ ids, (act (Action.recalculateAll ids)).run
      { registry with table := registry.table.compact registry.world.isLive name } =
        (((Action.recalculateAll ids).run registry.world).1,
          ⟨((Action.recalculateAll ids).run registry.world).2,
            registry.table.compact registry.world.isLive name⟩) := fun _ => rfl
  unfold notify
  simp only [run_bind, hlive, hact, run_pure]
  generalize registry.table.live registry.world.isLive name = ids
  obtain ⟨world, ⟨hrun, hsteps⟩ | ⟨hrun, hsteps⟩⟩ := Action.recalculateAll_cases ids registry.world
  · exact ⟨world, .inl ⟨by rw [hrun], hsteps⟩⟩
  · exact ⟨world, .inr ⟨by rw [hrun], hsteps⟩⟩

/-- A step changes the table by its own rule, and who lives only by letting go. -/
theorem perform_stands (h : registry.Stands registrations) (step : Step) :
    (step.perform.run registry).2.Stands (registrations ++ step.registers) ∧
    (step.perform.run registry).2.world.isLive =
      fun id => registry.world.isLive id && step.spares id := by
  have hspared : registry.world.isLive = fun id => registry.world.isLive id && true := by
    simp only [Bool.and_true]
  cases step with
  | add name id => exact ⟨h.add name id, hspared⟩
  | live name =>
    rw [Step.registers, List.append_nil]
    exact ⟨h.compact name, hspared⟩
  | prune =>
    rw [Step.registers, List.append_nil]
    exact ⟨h.prune, hspared⟩
  | notify name =>
    rw [Step.registers, List.append_nil]
    unfold Step.perform
    rw [run_bind]
    have hsame : ∀ world : World, registry.world.SameWatches world →
        Stands ⟨world, registry.table.compact registry.world.isLive name⟩ registrations ∧
          world.isLive = fun id => registry.world.isLive id && true := by
      intro world hsame
      rw [← hspared]
      exact ⟨(h.compact name).fade fun id _ hlive => hsame.isLive ▸ hlive, hsame.isLive⟩
    obtain ⟨world, ⟨hrun, hsteps⟩ | ⟨hrun, hsteps⟩⟩ := notify_cases name registry <;> rw [hrun]
    · exact hsame world hsteps.sameWatches
    · exact hsame world hsteps.sameWatches
  | unwatch id =>
    rw [Step.registers, List.append_nil]
    have hlive : (registry.world.modifyWatch id fun watch => { watch with isHeld := false }).isLive =
        fun other => registry.world.isLive other && other != id :=
      funext fun other => World.isLive_unheld registry.world id other
    refine ⟨h.fade fun other _ hother => ?_, hlive⟩
    have hother : (registry.world.modifyWatch id fun watch =>
      { watch with isHeld := false }).isLive other = true := hother
    rw [World.isLive_unheld] at hother
    exact (Bool.and_eq_true _ _).mp hother |>.1

/-! ## The same answers -/

/-- Two tables count the same, and list the same live watches under each name. -/
structure SameAnswers (registry other : Registry) : Prop where
  size : other.size = registry.size
  live : ∀ name, other.table.live other.world.isLive name =
    registry.table.live registry.world.isLive name

/-- Two tables answer the same now and after whatever is done with both. -/
def SameLater (registry other : Registry) : Prop :=
  ∀ steps, SameAnswers (registry.after steps) (other.after steps)

/-- Tables that stand for the same registrations answer the same for good. -/
theorem Stands.sameLater {other : Registry} (h : registry.Stands registrations)
    (k : other.Stands registrations) (hlive : other.world.isLive = registry.world.isLive) :
    registry.SameLater other := by
  intro steps
  induction steps generalizing registry other registrations with
  | nil =>
    refine ⟨?_, fun name => ?_⟩
    · show other.size = registry.size
      rw [h.size, k.size, World.aliveCount, World.aliveCount, hlive]
    · show other.table.live other.world.isLive name = registry.table.live registry.world.isLive name
      rw [h.live, k.live, World.alive, World.alive, hlive]
  | cons step rest ih =>
    obtain ⟨hstep, hspared⟩ := perform_stands h step
    obtain ⟨kstep, kspared⟩ := perform_stands k step
    exact ih hstep kstep (by rw [hspared, kspared, hlive])

/-! ## Runs -/

/-- Whoever registers a watch holds it. -/
def Step.Allowed (registry : Registry) : Step → Prop
  | add _ id => registry.world.isLive id = true
  | _ => True

/-- The registries that arise from an empty table beside some world, with their registrations: by what
is done with the table, and by whatever else is done to the world. -/
inductive Arises : Registry → List Registration → Prop
  | start (world : World) : Arises ⟨world, WatchTable.empty⟩ []
  | step {registry : Registry} {registrations : List Registration} (step : Step) :
      Arises registry registrations → step.Allowed registry →
      Arises (step.perform.run registry).2 (registrations ++ step.registers)
  | elsewhere {registry : Registry} {registrations : List Registration} {α : Type}
      {action : Action α} : Arises registry registrations → action.IsOpen →
      Arises ((act action).run registry).2 registrations

/-- Steps leave watches where they are. -/
theorem perform_continues (step : Step) (registry : Registry) :
    registry.world.Continues (step.perform.run registry).2.world := by
  cases step with
  | add | live | prune => exact .refl registry.world
  | notify name =>
    unfold Step.perform
    rw [run_bind]
    obtain ⟨world, ⟨hrun, hsteps⟩ | ⟨hrun, hsteps⟩⟩ := notify_cases name registry <;> rw [hrun]
    · exact .ofSame hsteps.sameWatches
    · exact .ofSame hsteps.sameWatches
  | unwatch id => exact (Action.Proceeds.unwatch id).continues registry.world

namespace Arises

/-- Only watches that there are have been registered. -/
theorem placed (h : Arises registry registrations) :
    ∀ r ∈ registrations, r.2 < registry.world.watches.length := by
  induction h with
  | start world => exact fun _ hr => nomatch hr
  | @step registry registrations step _ hallowed ih =>
    have hle := (perform_continues step registry).count_le
    intro r hr
    rcases List.mem_append.mp hr with hr | hr
    · exact Nat.lt_of_lt_of_le (ih r hr) hle
    · cases step with
      | add name id =>
        obtain rfl : r = (name, id) := List.mem_singleton.mp hr
        refine Nat.lt_of_lt_of_le ?_ hle
        have hlive : registry.world.isLive id = true := hallowed
        unfold World.isLive at hlive
        by_contra hge
        rw [List.getElem?_eq_none (Nat.le_of_not_lt hge)] at hlive
        cases hlive
      | _ => cases hr
  | @elsewhere registry registrations _ action _ hopen ih =>
    have hle := (hopen.proceeds.continues registry.world).count_le
    exact fun r hr => Nat.lt_of_lt_of_le (ih r hr) hle

theorem stands (h : Arises registry registrations) : registry.Stands registrations := by
  induction h with
  | start world => exact stands_empty world
  | @step registry registrations step _ _ ih => exact (perform_stands ih step).1
  | @elsewhere registry registrations _ action harises hopen ih =>
    refine ih.fade fun id hid hlive => ?_
    obtain ⟨r, hr, rfl⟩ := List.mem_map.mp hid
    exact (hopen.proceeds.continues registry.world).isLive (harises.placed r hr) hlive

/-- **A table stands for its registrations.**  It counts those whose watch lives.  Under a name it
finds the live watches that were registered under it, in that order; telling them recalculates them in
that order, once for each registration, and gives their number, unless an evaluation overflows and the
rest is not told.  Pruning gives the number of dead entries that the table has, and the second time
zero.  And neither looking up nor telling nor pruning makes a difference to any later answer. -/
theorem table_stands_for_registrations (h : Arises registry registrations) :
    registry.size = registry.world.aliveCount registrations ∧
    (∀ name, ∃ later, (live name).run registry = (.ok (registry.world.alive registrations name), later) ∧
      later.world = registry.world ∧ registry.SameLater later) ∧
    (∀ name, ∃ later, registry.SameLater later ∧
      (((notify name).run registry = (.ok (registry.world.alive registrations name).length, later) ∧
          Recalculates (registry.world.alive registrations name) registry.world later.world) ∨
        ((notify name).run registry = (.error .sumOverflow, later) ∧
          BreaksOff (registry.world.alive registrations name) registry.world later.world))) ∧
    ∃ later, prune.run registry =
        (.ok (registry.table.watches.countP fun id => !registry.world.isLive id), later) ∧
      later.world = registry.world ∧ registry.SameLater later ∧ prune.run later = (.ok 0, later) := by
  have hstands := h.stands
  refine ⟨hstands.size, fun name => ?_, fun name => ?_, ?_⟩
  · rw [← hstands.live name]
    exact ⟨_, rfl, rfl, hstands.sameLater (hstands.compact name) rfl⟩
  · rw [← hstands.live name]
    have hsame : ∀ world : World, registry.world.SameWatches world → registry.SameLater
        ⟨world, registry.table.compact registry.world.isLive name⟩ := by
      intro world hsame
      refine hstands.sameLater ?_ hsame.isLive
      exact (hstands.compact name).fade fun id _ hlive => hsame.isLive ▸ hlive
    obtain ⟨world, ⟨hrun, hsteps⟩ | ⟨hrun, hsteps⟩⟩ := notify_cases name registry
    · exact ⟨_, hsame world hsteps.sameWatches, .inl ⟨hrun, hsteps⟩⟩
    · exact ⟨_, hsame world hsteps.sameWatches, .inr ⟨hrun, hsteps⟩⟩
  · have hagain : (registry.table.prune registry.world.isLive).watches.countP
        (fun id => !registry.world.isLive id) = 0 := by
      rw [WatchTable.watches_prune, List.countP_eq_zero]
      intro id hid
      simp [(List.mem_filter.mp hid).2]
    refine ⟨_, run_prune registry, rfl, hstands.sameLater hstands.prune rfl, ?_⟩
    rw [run_prune]
    simp only [hagain, WatchTable.prune_prune]

end Arises

/-- Two watches, neither of which has been calculated yet. -/
def twoWatches : World :=
  ⟨Store.empty, Effects.initial 1, [⟨.text "a", .null, 0, true⟩, ⟨.text "b", .null, 0, true⟩], []⟩

/-- The first watch is registered twice under one name, and the second one under two names before it
is let go. -/
def crossed : List Step :=
  [.add "x" 0, .add "x" 1, .add "y" 1, .add "x" 0, .unwatch 1]

theorem table_stands_for_registrations_of_crossed :
    let registry := after ⟨twoWatches, WatchTable.empty⟩ crossed
    registry.size = 2 ∧ (∃ later, (live "x").run registry = (.ok [0, 0], later)) ∧
      (∃ later, (notify "x").run registry = (.ok 2, later) ∧
        Recalculates [0, 0] registry.world later.world) ∧
      ∃ later, prune.run registry = (.ok 2, later) ∧ prune.run later = (.ok 0, later) := by
  have harises : Arises (after ⟨twoWatches, WatchTable.empty⟩ crossed)
      [("x", 0), ("x", 1), ("y", 1), ("x", 0)] :=
    Arises.start twoWatches
      |>.step (.add "x" 0) rfl
      |>.step (.add "x" 1) rfl
      |>.step (.add "y" 1) rfl
      |>.step (.add "x" 0) rfl
      |>.step (.unwatch 1) trivial
  obtain ⟨hsize, hlive, hnotify, later, hprune, -, -, hagain⟩ :=
    Arises.table_stands_for_registrations harises
  obtain ⟨found, hfound, -⟩ := hlive "x"
  have hok : ((notify "x").run (after ⟨twoWatches, WatchTable.empty⟩ crossed)).1.isOk = true := by
    decide +kernel
  obtain ⟨told, -, ⟨hrun, hsteps⟩ | ⟨hrun, -⟩⟩ := hnotify "x"
  · exact ⟨hsize, ⟨found, hfound⟩, ⟨told, hrun, hsteps⟩, later, hprune, hagain⟩
  · rw [hrun] at hok
    cases hok

end Registry

end LiveTemplate
