import LiveTemplate.Proofs.Operator.Closed
import LiveTemplate.Proofs.Watch.Table
/-!
# Recalculating watches

Recalculating some watches, one after the other, changes nothing but these watches, and each of
them at most once.  When it is done each of them has the value that its expression has.  Should an
evaluation overflow it is not done: those before the one that overflowed have their values, and the
others keep the values that they had.

All that one recalculation can do is listed in `Recalculation`.  What several do follows from two laws:
a fault ends them, and otherwise the rest goes on from where the first ones left off.
-/

set_option autoImplicit false

namespace LiveTemplate

open Run (Ends)

/-! ## Watches -/

namespace Watch

/-- The same watch later, after one recalculation at most. -/
structure Follows (watch later : Watch) : Prop where
  expression : later.expression = watch.expression
  isHeld : later.isHeld = watch.isHeld
  changes_le : watch.changes ≤ later.changes
  le_changes : later.changes ≤ watch.changes + 1

/-- The value of the watch was once calculated, or equals one that was. -/
def Matches (store : Store) (watch : Watch) : Prop :=
  ∃ e e' v, (watch.expression.eval store).run e = (.ok v, e') ∧
    (watch.value.same store v = true ∨ watch.value = v)

/-- Does the expression have a value? -/
def evaluates (store : Store) (e : Effects) (watch : Watch) : Bool :=
  match ((watch.expression.eval store).run e).1 with
  | .ok _ => true
  | .error _ => false

theorem Follows.refl (watch : Watch) : watch.Follows watch :=
  ⟨rfl, rfl, Nat.le_refl _, Nat.le_succ _⟩

end Watch

namespace World

variable {world : World} {id other : WatchId}

theorem watches_modifyWatch_self (world : World) {watch : Watch} (h : world.watches[id]? = some watch)
    (change : Watch → Watch) : (world.modifyWatch id change).watches[id]? = some (change watch) := by
  simp [modifyWatch, h]

theorem watches_modifyWatch_other (h : other ≠ id) (change : Watch → Watch) :
    (world.modifyWatch id change).watches[other]? = world.watches[other]? := by
  simp [modifyWatch, Ne.symm h]

end World

namespace Action

open Run (run_bind run_pure)

/-! ## Opening an action -/

@[simp]
theorem run_get (world : World) : (get : Action World).run world = (.ok world, world) := rfl

@[simp]
theorem run_set (world world' : World) : (set world' : Action Unit).run world = (.ok (), world') :=
  rfl

@[simp]
theorem run_store (world : World) : store.run world = (.ok world.store, world) := rfl

@[simp]
theorem run_modify (change : World → World) (world : World) :
    (modify change : Action Unit).run world = (.ok (), change world) := rfl

theorem run_compute {α : Type} (computation : Store → Run α) (world : World) :
    (compute computation).run world =
      (((computation world.store).run world.effects).1,
        { world with effects := ((computation world.store).run world.effects).2 }) := rfl

/-! ## Recalculating -/

variable {world : World} {id : WatchId} {watch : Watch}

theorem run_recalculate_none (h : world.watches[id]? = none) :
    (recalculate id).run world = (.ok false, world) := by
  unfold recalculate
  simp only [run_bind, run_get, h, run_pure]

theorem run_recalculate_fault (h : world.watches[id]? = some watch) {x : Fault} {e : Effects}
    (hr : (watch.expression.eval world.store).run world.effects = (.error x, e)) :
    (recalculate id).run world = (.error x, { world with effects := e }) := by
  unfold recalculate
  simp only [run_bind, run_get, h, run_compute, hr]

theorem run_recalculate_same (h : world.watches[id]? = some watch) {v : Value} {e : Effects}
    (hr : (watch.expression.eval world.store).run world.effects = (.ok v, e))
    (hsame : watch.value.same world.store v = true) :
    (recalculate id).run world = (.ok false, { world with effects := e }) := by
  unfold recalculate
  simp only [run_bind, run_get, h, run_compute, hr, run_store, hsame, if_true, run_pure]

theorem run_recalculate_changed (h : world.watches[id]? = some watch) {v : Value} {e : Effects}
    (hr : (watch.expression.eval world.store).run world.effects = (.ok v, e))
    (hsame : watch.value.same world.store v = false) :
    (recalculate id).run world =
      (.ok true, { world with effects := e }.modifyWatch id fun watch =>
        { watch with value := v, changes := watch.changes + 1 }) := by
  unfold recalculate
  simp only [run_bind, run_get, h, run_compute, hr, run_store, hsame, Bool.false_eq_true, if_false,
    run_modify, run_pure]

/-- All that one recalculation can do. -/
inductive Recalculation (world : World) (id : WatchId) : Except Fault Bool → World → Prop
  | missing : world.watches[id]? = none → Recalculation world id (.ok false) world
  | fault {watch : Watch} {x : Fault} {e : Effects} : world.watches[id]? = some watch →
      (watch.expression.eval world.store).run world.effects = (.error x, e) →
      Recalculation world id (.error x) { world with effects := e }
  /-- The watch has the value already. -/
  | same {watch : Watch} {v : Value} {e : Effects} : world.watches[id]? = some watch →
      (watch.expression.eval world.store).run world.effects = (.ok v, e) →
      watch.value.same world.store v = true →
      Recalculation world id (.ok false) { world with effects := e }
  | changed {watch : Watch} {v : Value} {e : Effects} : world.watches[id]? = some watch →
      (watch.expression.eval world.store).run world.effects = (.ok v, e) →
      watch.value.same world.store v = false →
      Recalculation world id (.ok true) ({ world with effects := e }.modifyWatch id fun watch =>
        { watch with value := v, changes := watch.changes + 1 })

theorem recalculation_of_run {result : Except Fault Bool} {world' : World}
    (h : (recalculate id).run world = (result, world')) : Recalculation world id result world' := by
  cases hw : world.watches[id]? with
  | none =>
    obtain ⟨rfl, rfl⟩ := Prod.mk.inj (h.symm.trans (run_recalculate_none hw))
    exact .missing hw
  | some watch =>
    rcases hr : (watch.expression.eval world.store).run world.effects with ⟨x | v, e⟩
    · obtain ⟨rfl, rfl⟩ := Prod.mk.inj (h.symm.trans (run_recalculate_fault hw hr))
      exact .fault hw hr
    · cases hsame : watch.value.same world.store v with
      | true =>
        obtain ⟨rfl, rfl⟩ := Prod.mk.inj (h.symm.trans (run_recalculate_same hw hr hsame))
        exact .same hw hr hsame
      | false =>
        obtain ⟨rfl, rfl⟩ := Prod.mk.inj (h.symm.trans (run_recalculate_changed hw hr hsame))
        exact .changed hw hr hsame

/-- What recalculating some watches leads from and to. -/
structure Recalculated {α : Type} (ids : List WatchId) (result : Except Fault α)
    (world world' : World) : Prop where
  store : world'.store = world.store
  tables : world'.tables = world.tables
  count : world'.watches.length = world.watches.length
  others : ∀ id : WatchId, id ∉ ids → world'.watches[id]? = world.watches[id]?
  each : ∀ (id : WatchId) (watch : Watch), world.watches[id]? = some watch →
    ∃ later : Watch, world'.watches[id]? = some later ∧ watch.Follows later
  done : ∀ a, result = .ok a → ∀ id ∈ ids, ∀ watch : Watch, world'.watches[id]? = some watch →
    watch.Matches world.store
  broken : ∀ x, result = .error x → x.IsOverflow ∧ ∃ before id after, ids = before ++ id :: after ∧
    (∀ other ∈ before, ∀ watch : Watch, world'.watches[other]? = some watch →
      watch.Matches world.store) ∧
    ∃ (watch : Watch) (e : Effects), world'.watches[id]? = some watch ∧
      watch.evaluates world.store e = false

/-- Only the effects have changed. -/
theorem Recalculated.ofEffects {α : Type} {ids : List WatchId} {a : α} {e : Effects}
    (hdone : ∀ id ∈ ids, ∀ watch : Watch, world.watches[id]? = some watch →
      watch.Matches world.store) :
    Recalculated ids (.ok a) world { world with effects := e } :=
  ⟨rfl, rfl, rfl, fun _ _ => rfl, fun _ watch h => ⟨watch, h, .refl _⟩, fun _ _ => hdone, nofun⟩

/-- A fault ends it, whatever watches were to come. -/
theorem Recalculated.stopped {α β : Type} {ids : List WatchId} {x : Fault} {world' : World}
    (h : Recalculated ids (.error x : Except Fault α) world world') (more : List WatchId) :
    Recalculated (ids ++ more) (.error x : Except Fault β) world world' where
  store := h.store
  tables := h.tables
  count := h.count
  others other hother := h.others other fun hmem => hother (List.mem_append_left _ hmem)
  each := h.each
  done := nofun
  broken := by
    intro y hy
    obtain rfl : x = y := by injection hy
    obtain ⟨hover, before, failed, after, rfl, hbroken⟩ := h.broken x rfl
    exact ⟨hover, before, failed, after ++ more, by simp, hbroken⟩

/-- Some watches, and then others. -/
theorem Recalculated.andThen {α β : Type} {ids rest : List WatchId} {a : α} {result : Except Fault β}
    {middle world' : World} (hfirst : Recalculated ids (.ok a) world middle)
    (hrest : Recalculated rest result middle world') (hapart : List.Disjoint ids rest) :
    Recalculated (ids ++ rest) result world world' := by
  have hmatches : ∀ id ∈ ids, ∀ watch : Watch, world'.watches[id]? = some watch →
      watch.Matches world.store := by
    intro id hid watch hwatch
    rw [hrest.others id (hapart hid)] at hwatch
    exact hfirst.done a rfl id hid watch hwatch
  refine ⟨hrest.store.trans hfirst.store, hrest.tables.trans hfirst.tables,
    hrest.count.trans hfirst.count, fun other hother => ?_, ?_, ?_, ?_⟩
  · rw [List.mem_append, not_or] at hother
    exact (hrest.others other hother.2).trans (hfirst.others other hother.1)
  · intro other watch hwatch
    -- either this is one of the first, which are not named again, or it is not
    by_cases hmem : other ∈ ids
    · obtain ⟨later, hlater, hfollows⟩ := hfirst.each other watch hwatch
      exact ⟨later, (hrest.others other (hapart hmem)).trans hlater, hfollows⟩
    · exact hrest.each other watch ((hfirst.others other hmem).trans hwatch)
  · intro b hb other hother watch hwatch
    rcases List.mem_append.mp hother with hmem | hmem
    · exact hmatches other hmem watch hwatch
    · rw [← hfirst.store]
      exact hrest.done b hb other hmem watch hwatch
  · intro x hx
    obtain ⟨hover, before, failed, after, rfl, hbefore, watch, e, hwatch, hnone⟩ := hrest.broken x hx
    rw [hfirst.store] at hbefore hnone
    refine ⟨hover, ids ++ before, failed, after, by simp, ?_, watch, e, hwatch, hnone⟩
    intro other hother later hlater
    rcases List.mem_append.mp hother with hmem | hmem
    · exact hmatches other hmem later hlater
    · exact hbefore other hmem later hlater

theorem recalculate_recalculated {result : Except Fault Bool} {world' : World}
    (h : (recalculate id).run world = (result, world')) : Recalculated [id] result world world' := by
  cases recalculation_of_run h with
  | missing hnone =>
    refine .ofEffects (e := world.effects) fun other hother watch hwatch => ?_
    rw [List.mem_singleton.mp hother, hnone] at hwatch
    cases hwatch
  | @fault watch x e hwatch hr =>
    refine ⟨rfl, rfl, rfl, fun _ _ => rfl, fun _ watch h => ⟨watch, h, .refl _⟩, nofun, ?_⟩
    intro y hy
    obtain rfl : x = y := by injection hy
    have hnone : watch.evaluates world.store world.effects = false := by
      simp [Watch.evaluates, hr]
    exact ⟨(eval_ends world.store watch.expression).fault hr, [], id, [], rfl,
      (fun _ hmem => nomatch hmem), watch, world.effects, hwatch, hnone⟩
  | @same watch v e hwatch hr hsame =>
    refine .ofEffects fun other hother later hlater => ?_
    rw [List.mem_singleton.mp hother, hwatch] at hlater
    obtain rfl : watch = later := Option.some.inj hlater
    exact ⟨_, _, v, hr, .inl hsame⟩
  | @changed watch v e hwatch hr _ =>
    have hself := World.watches_modifyWatch_self { world with effects := e } hwatch
      fun watch => { watch with value := v, changes := watch.changes + 1 }
    refine ⟨rfl, rfl, List.length_modify .., fun other hother => ?_, ?_, ?_, nofun⟩
    · exact World.watches_modifyWatch_other (fun hid => hother (by simp [hid])) _
    · intro other old hold
      by_cases hid : other = id
      · subst hid
        rw [hwatch] at hold
        obtain rfl : watch = old := Option.some.inj hold
        exact ⟨_, hself, rfl, rfl, Nat.le_succ _, Nat.le_refl _⟩
      · exact ⟨old, (World.watches_modifyWatch_other hid _).trans hold, .refl _⟩
    · intro _ _ other hother later hlater
      rw [List.mem_singleton.mp hother] at hlater
      obtain rfl := Option.some.inj (hself.symm.trans hlater)
      exact ⟨_, _, v, hr, .inr rfl⟩

/-- **Recalculating watches**, each of which is named once. -/
theorem recalculateAll_recalculated {ids : List WatchId} (hids : ids.Nodup)
    {result : Except Fault Unit} {world' : World}
    (h : (recalculateAll ids).run world = (result, world')) : Recalculated ids result world world' := by
  induction ids generalizing world with
  | nil =>
    obtain ⟨rfl, rfl⟩ := Prod.mk.inj h
    exact .ofEffects (e := world.effects) fun _ hmem => nomatch hmem
  | cons id rest ih =>
    obtain ⟨hid, hrest⟩ := List.nodup_cons.mp hids
    unfold recalculateAll at h
    rw [run_bind] at h
    rcases hr : (recalculate id).run world with ⟨x | b, middle⟩ <;> rw [hr] at h
    · obtain ⟨rfl, rfl⟩ := Prod.mk.inj h
      exact (recalculate_recalculated hr).stopped rest
    · exact (recalculate_recalculated hr).andThen (ih hrest h) (List.singleton_disjoint.mpr hid)

end Action

end LiveTemplate
