import LiveTemplate.Proofs.Library.Catalog
import LiveTemplate.Proofs.Watch.Writing
/-!
# Scopes, new names, and watches that are let go

None of these steps changes a binding that there is.  A new scope binds nothing, and a name that is
new in a scope was not what any symbol of this scope stands for; so no expression that is watched
finds anything else than before, even if the scope is nearer than the one that its symbols name.
-/

set_option autoImplicit false

namespace LiveTemplate

open Value
open Run (Ends)

namespace World

variable {world world' : World} {stale : List WatchId}

/-- Values stay up to date where all bindings stay. -/
theorem Fresh.frame (hfresh : world.Fresh stale) (hwired : world.Wired) (hwired' : world'.Wired)
    (hcells : world.store.cells = world'.store.cells)
    (hown : ∀ scope name binding, world.store.ownBinding? scope name = some binding →
      world'.store.ownBinding? scope name = some binding)
    (hwatches : ∀ (id : WatchId) (watch : Watch), world'.watches[id]? = some watch →
      watch.isHeld = true → world.watches[id]? = some watch) : world'.Fresh stale := by
  intro id watch hwatch hheld hstale
  have hold := hwatches id watch hwatch hheld
  have hcurrent := hfresh id watch hold hheld hstale
  refine hcurrent.frame hcells hwired.orderly hwired'.orderly (hwired.hears id watch hold hheld) ?_
  rintro scope name ⟨⟨binding, hbinding⟩, -⟩
  exact ⟨binding, hbinding, hown scope name binding hbinding⟩

end World

namespace Action

open Run (run_bind run_pure)
open World

variable {world world' : World} {stale : List WatchId}

/-! ## New scopes -/

/-- The world with one more scope, which binds nothing. -/
def extended (world : World) (ancestors : List ScopeId) (viewport : Viewport) (agent : Agent) :
    World :=
  { world with
    store := world.store.grown ancestors viewport agent
    tables := world.tables ++ [WatchTable.empty] }

theorem run_newChild (parent : ScopeId) (world : World) : ∃ viewport agent,
    (newChild parent).run world = (.ok world.store.scopes.length,
      extended world (world.store.lineage parent) viewport agent) :=
  ⟨_, _, rfl⟩

theorem newChild_keeps (hwired : world.Wired) {parent : ScopeId} {result : Except Fault ScopeId}
    (h : (newChild parent).run world = (result, world')) : Keeps result world world' := by
  obtain ⟨viewport, agent, hrun⟩ := run_newChild parent world
  obtain ⟨rfl, rfl⟩ := Prod.mk.inj (h.symm.trans hrun)
  exact ⟨hwired.grown _ viewport agent, counts_refl world, nofun⟩

theorem newChild_fresh (hwired : world.Wired) (hfresh : world.Fresh stale) {parent : ScopeId}
    {result : Except Fault ScopeId} (h : (newChild parent).run world = (result, world')) :
    world'.Fresh stale := by
  have hwired' := (newChild_keeps hwired h).wired
  obtain ⟨viewport, agent, hrun⟩ := run_newChild parent world
  obtain ⟨-, rfl⟩ := Prod.mk.inj (h.symm.trans hrun)
  refine hfresh.frame hwired hwired' rfl (fun scope name binding hown => ?_) fun _ _ hwatch _ => hwatch
  exact (Store.ownBinding?_grown _ viewport agent scope name).trans hown

/-! ## New names -/

theorem run_put (scope : ScopeId) (name : String) (kind : BindingKind) (value : Value)
    (world : World) : (put scope name kind value).run world =
      (.ok (), { world with store := world.store.bind scope name ⟨value, kind⟩ }) := rfl

variable {scope : ScopeId} {name : String} {kind : BindingKind} {value : Value}
  {result : Except Fault Unit}

theorem put_keeps (hwired : world.Wired) (hplain : Plain world.store value)
    (h : (put scope name kind value).run world = (result, world')) : Keeps result world world' := by
  obtain ⟨rfl, rfl⟩ := Prod.mk.inj h
  exact ⟨hwired.bind scope name hplain, counts_refl world, nofun⟩

/-- A name that is new in a scope redirects nothing. -/
theorem put_fresh (hwired : world.Wired) (hplain : Plain world.store value)
    (hnew : world.store.ownBinding? scope name = none) (hfresh : world.Fresh stale)
    (h : (put scope name kind value).run world = (result, world')) : world'.Fresh stale := by
  have hwired' := (put_keeps hwired hplain h).wired
  obtain ⟨-, rfl⟩ := Prod.mk.inj h
  refine hfresh.frame hwired hwired' rfl (fun other n binding hown => ?_) fun _ _ hwatch _ => hwatch
  refine (Store.ownBinding?_bind_other world.store _ ?_).trans hown
  by_cases hother : other = scope
  · refine .inr fun hn => ?_
    rw [hother, hn, hnew] at hown
    cases hown
  · exact .inl hother

theorem putAll_wired {bindings : List (String × Value)} (hwired : world.Wired)
    (hplain : ∀ entry ∈ bindings, Plain world.store entry.2)
    (h : (putAll scope bindings).run world = (result, world')) :
    world'.Wired ∧ world'.watches = world.watches ∧ result = .ok () := by
  induction bindings generalizing world with
  | nil =>
    obtain ⟨rfl, rfl⟩ := Prod.mk.inj h
    exact ⟨hwired, rfl, rfl⟩
  | cons entry rest ih =>
    obtain ⟨name, value⟩ := entry
    unfold putAll at h
    rw [run_bind, run_put] at h
    have hcells := (Store.cells_bind world.store scope name ⟨value, .constant⟩).symm
    have hrest := ih (hwired.bind scope name (hplain _ List.mem_cons_self))
      (fun other hother => (hplain other (List.mem_cons_of_mem _ hother)).congr hcells) h
    exact hrest

/-! ## Watches that are let go -/

theorem run_unwatch (id : WatchId) (world : World) : (unwatch id).run world =
    (.ok (), world.modifyWatch id fun watch => { watch with isHeld := false }) := rfl

theorem unwatch_keeps (hwired : world.Wired) {id : WatchId}
    (h : (unwatch id).run world = (result, world')) : Keeps result world world' := by
  obtain ⟨rfl, rfl⟩ := Prod.mk.inj (h.symm.trans (run_unwatch id world))
  refine ⟨hwired.unheld id, fun other watch hwatch => ?_, nofun⟩
  by_cases hother : other = id
  · subst hother
    exact ⟨_, watches_modifyWatch_self world hwatch _, Nat.le_refl _, Nat.le_succ _⟩
  · rw [watches_modifyWatch_other hother]
    exact counts_refl world other watch hwatch

theorem unwatch_fresh (hwired : world.Wired) (hfresh : world.Fresh stale) {id : WatchId}
    (h : (unwatch id).run world = (result, world')) : world'.Fresh stale := by
  have hwired' := (unwatch_keeps hwired h).wired
  obtain ⟨-, rfl⟩ := Prod.mk.inj (h.symm.trans (run_unwatch id world))
  refine hfresh.frame hwired hwired' rfl (fun _ _ _ hown => hown) fun other watch hwatch hheld => ?_
  by_cases hother : other = id
  · subst hother
    simp only [modifyWatch, List.getElem?_modify, if_true] at hwatch
    obtain ⟨old, -, rfl⟩ := Option.map_eq_some_iff.mp hwatch
    cases hheld
  · rwa [watches_modifyWatch_other hother] at hwatch

/-! ## The root -/

/-- The world in which nothing is but editable containers and what is in them. -/
def bare (cells : List (Ref × Cell)) (effects : Effects) : World := ⟨⟨[], [], cells⟩, effects, [], []⟩

theorem wired_bare (cells : List (Ref × Cell)) (effects : Effects) : (bare cells effects).Wired := by
  refine ⟨⟨?_, ?_, ?_⟩, rfl, fun _ h => (nomatch h), fun _ _ h => (nomatch h)⟩
  · exact fun h => nomatch h
  · exact fun h => nomatch h
  · exact fun h => nomatch h

/-- Making a root scope succeeds.  It is wired then, and nothing is watched. -/
theorem newRoot_wired (cells : List (Ref × Cell)) (effects : Effects) (viewport : Viewport)
    (agent : Agent) : ∃ world, (newRoot viewport agent).run (bare cells effects) = (.ok 0, world) ∧
      world.Wired ∧ world.watches = [] := by
  have hadd : (addScope fun store => store.addRoot viewport agent).run (bare cells effects) =
      (.ok 0, extended (bare cells effects) [] viewport agent) := rfl
  have hextended : (extended (bare cells effects) [] viewport agent).Wired :=
    (wired_bare cells effects).grown [] viewport agent
  have hnone : (extended (bare cells effects) [] viewport agent).watches = [] := rfl
  unfold newRoot
  rw [run_bind, hadd]
  dsimp only
  generalize extended (bare cells effects) [] viewport agent = start at hextended hnone
  have hplain : Ends (fun bindings => ∀ entry ∈ bindings, Plain start.store entry.2) Run.Never
    (Library.rootBindings viewport agent) :=
    @Library.rootBindings_plain start.store viewport agent
  simp only [run_bind, run_compute]
  rcases hr : (Library.rootBindings viewport agent).run start.effects with ⟨x | bindings, e⟩
  · exact (hplain.fault hr).elim
  · rcases hput : (putAll 0 bindings).run { start with effects := e } with ⟨outcome, world⟩
    obtain ⟨hwired, hwatches, rfl⟩ := putAll_wired (hextended.withEffects e) (hplain.value hr) hput
    dsimp only
    rw [hput]
    exact ⟨world, rfl, hwired, hwatches.trans hnone⟩

end Action

end LiveTemplate
