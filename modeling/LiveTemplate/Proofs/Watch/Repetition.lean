import LiveTemplate.Proofs.Watch.Recalculation
/-!
# Recalculating watches again and again

A watch that is listed several times is recalculated as often.  Then a bound on the changes of its
value depends on how often it is listed; but whoever was recalculated at least once has the value
that its expression has, since nothing that happens to it later makes this false.

Recalculations follow each other in the order of the list.  They go on to its end, or they break off
at the first evaluation that overflows.
-/

set_option autoImplicit false

namespace LiveTemplate

/-- The later watch has the expression of the earlier one and is held if that one is. -/
structure Watch.Remains (watch later : Watch) : Prop where
  expression : later.expression = watch.expression
  isHeld : later.isHeld = watch.isHeld

/-- The second world has the same watches as the first one, with other values perhaps.  A value that
was calculated in the store that both have is there for good, or a later one in its place. -/
structure World.SameWatches (world world' : World) : Prop where
  store : world'.store = world.store
  tables : world'.tables = world.tables
  count : world'.watches.length = world.watches.length
  remains : ∀ (id : WatchId) (watch : Watch), world.watches[id]? = some watch →
    ∃ later : Watch, world'.watches[id]? = some later ∧ watch.Remains later ∧
      (watch.Matches world.store → later.Matches world.store)

namespace World.SameWatches

variable {world world' last : World}

theorem ofEffects (world : World) (e : Effects) : world.SameWatches { world with effects := e } :=
  ⟨rfl, rfl, rfl, fun _ watch h => ⟨watch, h, ⟨rfl, rfl⟩, id⟩⟩

theorem refl (world : World) : world.SameWatches world := ofEffects world world.effects

theorem trans (h : world.SameWatches world') (k : world'.SameWatches last) :
    world.SameWatches last where
  store := k.store.trans h.store
  tables := k.tables.trans h.tables
  count := k.count.trans h.count
  remains id watch hwatch := by
    obtain ⟨middle, hmiddle, hfirst, hmatches⟩ := h.remains id watch hwatch
    obtain ⟨later, hlater, hsecond, hmatches'⟩ := k.remains id middle hmiddle
    rw [h.store] at hmatches'
    refine ⟨later, hlater, ⟨?_, ?_⟩, hmatches' ∘ hmatches⟩
    · exact hsecond.expression.trans hfirst.expression
    · exact hsecond.isHeld.trans hfirst.isHeld

/-- What the later watch was before. -/
theorem back (h : world.SameWatches world') {id : WatchId} {later : Watch}
    (hlater : world'.watches[id]? = some later) : ∃ watch : Watch, world.watches[id]? = some watch ∧
      watch.Remains later ∧ (watch.Matches world.store → later.Matches world.store) := by
  have hlt : id < world.watches.length := h.count ▸ (List.getElem?_eq_some_iff.mp hlater).1
  obtain ⟨later', hlater', hremains⟩ := h.remains id _ (List.getElem?_eq_getElem hlt)
  obtain rfl : later' = later := Option.some.inj (hlater'.symm.trans hlater)
  exact ⟨_, List.getElem?_eq_getElem hlt, hremains⟩

/-- The same watches live. -/
theorem isLive (h : world.SameWatches world') : world'.isLive = world.isLive := by
  funext id
  unfold World.isLive
  cases hwatch : world.watches[id]? with
  | none =>
    have hge : world'.watches.length ≤ id := h.count ▸ List.getElem?_eq_none_iff.mp hwatch
    rw [List.getElem?_eq_none hge]
  | some watch =>
    obtain ⟨later, hlater, hremains, -⟩ := h.remains id watch hwatch
    rw [hlater]
    exact hremains.isHeld

end World.SameWatches

namespace Action

open Run (run_bind run_pure)

variable {world world' : World} {ids : List WatchId} {id : WatchId}

/-! ## One recalculation -/

/-- A recalculation changes effects only, or else the watch has the new value after it. -/
theorem recalculate_cases {result : Except Fault Bool}
    (h : (recalculate id).run world = (result, world')) : (∃ e, world' = { world with effects := e }) ∨
    ∃ watch v e, world.watches[id]? = some watch ∧
      (watch.expression.eval world.store).run world.effects = (.ok v, e) ∧
      world' = { world with effects := e }.modifyWatch id fun watch =>
        { watch with value := v, changes := watch.changes + 1 } := by
  cases recalculation_of_run h with
  | missing _ => exact .inl ⟨world.effects, rfl⟩
  | fault _ _ | same _ _ _ => exact .inl ⟨_, rfl⟩
  | changed hwatch hr _ => exact .inr ⟨_, _, _, hwatch, hr, rfl⟩

theorem recalculate_sameWatches {result : Except Fault Bool}
    (h : (recalculate id).run world = (result, world')) : world.SameWatches world' := by
  rcases recalculate_cases h with ⟨e, rfl⟩ | ⟨watch, v, e, hwatch, hr, rfl⟩
  · exact .ofEffects world e
  · refine ⟨rfl, rfl, List.length_modify .., fun other old hold => ?_⟩
    by_cases hother : other = id
    · subst hother
      obtain rfl : watch = old := Option.some.inj (hwatch.symm.trans hold)
      refine ⟨_, World.watches_modifyWatch_self { world with effects := e } hwatch _, ⟨rfl, rfl⟩, ?_⟩
      exact fun _ => ⟨_, _, v, hr, .inr rfl⟩
    · exact ⟨old, (World.watches_modifyWatch_other hother _).trans hold, ⟨rfl, rfl⟩, fun h => h⟩

/-! ## One after the other -/

/-- Recalculating the watches in this order leads from the one world to the other. -/
inductive Recalculates : List WatchId → World → World → Prop
  | nil (world : World) : Recalculates [] world world
  | cons {id : WatchId} {rest : List WatchId} {changed : Bool} {world middle world' : World} :
      (recalculate id).run world = (.ok changed, middle) → Recalculates rest middle world' →
      Recalculates (id :: rest) world world'

/-- Recalculating the watches in this order breaks off in the other world, where an evaluation has
overflowed. -/
inductive BreaksOff : List WatchId → World → World → Prop
  | here {id : WatchId} {rest : List WatchId} {world world' : World} :
      (recalculate id).run world = (.error .sumOverflow, world') → BreaksOff (id :: rest) world world'
  | later {id : WatchId} {rest : List WatchId} {changed : Bool} {world middle world' : World} :
      (recalculate id).run world = (.ok changed, middle) → BreaksOff rest middle world' →
      BreaksOff (id :: rest) world world'

/-- **Recalculating watches**, however often each of them is named. -/
theorem recalculateAll_cases (ids : List WatchId) (world : World) : ∃ world',
    ((recalculateAll ids).run world = (.ok (), world') ∧ Recalculates ids world world') ∨
    ((recalculateAll ids).run world = (.error .sumOverflow, world') ∧ BreaksOff ids world world') := by
  induction ids generalizing world with
  | nil => exact ⟨world, .inl ⟨rfl, .nil world⟩⟩
  | cons id rest ih =>
    unfold recalculateAll
    rw [run_bind]
    rcases hr : (recalculate id).run world with ⟨x | changed, middle⟩
    · obtain rfl : x = .sumOverflow := ((recalculate_recalculated hr).broken x rfl).1
      exact ⟨middle, .inr ⟨rfl, .here hr⟩⟩
    · obtain ⟨world', ⟨hrun, hrest⟩ | ⟨hrun, hrest⟩⟩ := ih middle
      · exact ⟨world', .inl ⟨hrun, .cons hr hrest⟩⟩
      · exact ⟨world', .inr ⟨hrun, .later hr hrest⟩⟩

theorem Recalculates.sameWatches (h : Recalculates ids world world') : world.SameWatches world' := by
  induction h with
  | nil world => exact .refl world
  | cons hr _ ih => exact (recalculate_sameWatches hr).trans ih

theorem BreaksOff.sameWatches (h : BreaksOff ids world world') : world.SameWatches world' := by
  induction h with
  | here hr => exact recalculate_sameWatches hr
  | later hr _ ih => exact (recalculate_sameWatches hr).trans ih

theorem recalculateAll_sameWatches {result : Except Fault Unit}
    (h : (recalculateAll ids).run world = (result, world')) : world.SameWatches world' := by
  obtain ⟨last, ⟨hrun, hsteps⟩ | ⟨hrun, hsteps⟩⟩ := recalculateAll_cases ids world
  · obtain ⟨-, rfl⟩ := Prod.mk.inj (h.symm.trans hrun)
    exact hsteps.sameWatches
  · obtain ⟨-, rfl⟩ := Prod.mk.inj (h.symm.trans hrun)
    exact hsteps.sameWatches

/-- **Each of the watches has the value of its expression in the end.** -/
theorem Recalculates.matches (h : Recalculates ids world world') (hid : id ∈ ids) {watch : Watch}
    (hwatch : world'.watches[id]? = some watch) : watch.Matches world.store := by
  induction h with
  | nil => cases hid
  | @cons first rest changed world middle world' hr hrest ih =>
    have hfirst := recalculate_recalculated hr
    rcases List.mem_cons.mp hid with rfl | hid
    · -- what the first recalculation has achieved is not undone by the others
      obtain ⟨old, hold, -, hkept⟩ := hrest.sameWatches.back hwatch
      rw [hfirst.store] at hkept
      exact hkept (hfirst.done changed rfl _ List.mem_cons_self old hold)
    · rw [← hfirst.store]
      exact ih hid hwatch

end Action

end LiveTemplate
