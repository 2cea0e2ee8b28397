import LiveTemplate.Proofs.Template.Preserved
import LiveTemplate.Proofs.Watch.Telling
import LiveTemplate.Proofs.Watch.Watching
/-!
# Silent steps

A step is silent if it ends well and no impure function is called in it.  Calls are recorded and never taken
back; so if the whole step records none, no evaluation in it does.

That a world is quiet, that evaluating what is watched calls nothing impure, need not be asked for then.
What is told by a silent write was evaluated silently, and so would it be again.  And what is not told has
not changed since the last step.
-/

set_option autoImplicit false

namespace LiveTemplate

open Value

/-- Evaluating a template takes no recorded call back. -/
theorem Template.evaluate_records (store : Store) (scope : ScopeId) (source : String) (e : Effects) :
    e.calls.length ≤ ((evaluate store scope source).run e).2.calls.length := by
  have hread := @parse_silent store scope source e
  unfold evaluate
  rw [read_eq_parse, Run.run_bind]
  rcases hr : (parse store scope source).run e with ⟨x | result, e'⟩ <;> rw [hr] at hread
  · exact Nat.le_of_eq (congrArg List.length hread.symm)
  · rw [← show e'.calls = e.calls from hread]
    cases result with
    | error mistake => exact Nat.le_refl _
    | ok v => exact (discreet_eval store v).records e'

namespace Action

open World

variable {world world' : World} {ids : List WatchId} {id : WatchId}

/-! ## Recalculating -/

/-- An evaluation that records no call is quiet whenever it is done. -/
theorem quiet_of_silent {store : Store} {watch : Watch} {e : Effects}
    (h : ((watch.expression.eval store).run e).2.calls.length = e.calls.length) (f : Effects) :
    watch.IsQuiet store f := by
  obtain ⟨-, -, hquiet, -⟩ := (discreet_eval store watch.expression).anew e e rfl h
  exact (Value.eval_quiet hquiet f).linked

/-- What a recalculation leaves behind is what the evaluation does. -/
theorem recalculate_effects {result : Except Fault Bool} {watch : Watch}
    (hwatch : world.watches[id]? = some watch) (h : (recalculate id).run world = (result, world')) :
    world'.effects = ((watch.expression.eval world.store).run world.effects).2 := by
  cases recalculation_of_run h with
  | missing hnone =>
    rw [hwatch] at hnone
    cases hnone
  | fault hsome hr | same hsome hr _ =>
    obtain rfl := Option.some.inj (hwatch.symm.trans hsome)
    rw [hr]
  | changed hsome hr _ =>
    obtain rfl := Option.some.inj (hwatch.symm.trans hsome)
    rw [hr]
    rfl

theorem recalculate_records {result : Except Fault Bool}
    (h : (recalculate id).run world = (result, world')) :
    world.effects.calls.length ≤ world'.effects.calls.length := by
  cases recalculation_of_run h with
  | missing _ => exact Nat.le_refl _
  | @fault watch _ _ _ hr | @same watch _ _ _ hr _ | @changed watch _ _ _ hr _ =>
    have hrecords := (discreet_eval world.store watch.expression).records world.effects
    rwa [hr] at hrecords

/-- No recorded call is taken back. -/
theorem Recalculates.records (h : Recalculates ids world world') :
    world.effects.calls.length ≤ world'.effects.calls.length := by
  induction h with
  | nil => exact Nat.le_refl _
  | cons hr _ ih => exact Nat.le_trans (recalculate_records hr) ih

/-- **What is recalculated silently is quiet**, at whatever time it is evaluated. -/
theorem Recalculates.quiet (h : Recalculates ids world world')
    (hsilent : world'.effects.calls.length = world.effects.calls.length) (hid : id ∈ ids) {watch : Watch}
    (hwatch : world'.watches[id]? = some watch) (e : Effects) : watch.IsQuiet world.store e := by
  induction h with
  | nil => cases hid
  | @cons first rest changed world middle world' hr hrest ih =>
    have hfirst := recalculate_records hr
    have hmore := hrest.records
    rcases List.mem_cons.mp hid with rfl | hid
    · -- the calls before it and those after it are the same ones
      obtain ⟨old, hold, hremains, -⟩ := ((recalculate_sameWatches hr).trans hrest.sameWatches).back hwatch
      have heffects := recalculate_effects hold hr
      have hnone : ((old.expression.eval world.store).run world.effects).2.calls.length =
          world.effects.calls.length := by
        rw [← heffects]
        exact Nat.le_antisymm (Nat.le_trans hmore (Nat.le_of_eq hsilent)) hfirst
      unfold Watch.IsQuiet
      rw [hremains.expression]
      exact quiet_of_silent hnone e
    · rw [← (recalculate_sameWatches hr).store]
      exact ih (Nat.le_antisymm (Nat.le_trans (Nat.le_of_eq hsilent) hfirst) hmore) hid hwatch

/-- A watch has the value that it had, or the one that its expression has. -/
theorem recalculate_value {first : WatchId} {result : Except Fault Bool}
    (h : (recalculate first).run world = (result, world')) {later : Watch}
    (hlater : world'.watches[id]? = some later) : ∃ watch : Watch, world.watches[id]? = some watch ∧
      watch.Remains later ∧ (later.value = watch.value ∨
        ∃ e e', (watch.expression.eval world.store).run e = (.ok later.value, e')) := by
  rcases recalculate_cases h with ⟨e, rfl⟩ | ⟨watch, v, e, hwatch, heval, rfl⟩
  · exact ⟨later, hlater, ⟨rfl, rfl⟩, .inl rfl⟩
  · by_cases hsame : id = first
    · subst hsame
      rw [watches_modifyWatch_self { world with effects := e } hwatch] at hlater
      obtain rfl := Option.some.inj hlater
      exact ⟨watch, hwatch, ⟨rfl, rfl⟩, .inr ⟨_, _, heval⟩⟩
    · rw [watches_modifyWatch_other hsame] at hlater
      exact ⟨later, hlater, ⟨rfl, rfl⟩, .inl rfl⟩

theorem Recalculates.value (h : Recalculates ids world world') {later : Watch}
    (hlater : world'.watches[id]? = some later) : ∃ watch : Watch, world.watches[id]? = some watch ∧
      watch.Remains later ∧ (later.value = watch.value ∨
        ∃ e e', (watch.expression.eval world.store).run e = (.ok later.value, e')) := by
  induction h with
  | nil => exact ⟨later, hlater, ⟨rfl, rfl⟩, .inl rfl⟩
  | @cons first rest changed world middle world' hr _ ih =>
    obtain ⟨between, hbetween, hremains, hvalue⟩ := ih hlater
    obtain ⟨watch, hwatch, hremained, hfirst⟩ := recalculate_value hr hbetween
    refine ⟨watch, hwatch, ⟨hremains.expression.trans hremained.expression,
      hremains.isHeld.trans hremained.isHeld⟩, ?_⟩
    rw [(recalculate_sameWatches hr).store, hremained.expression] at hvalue
    rcases hvalue with hvalue | hvalue
    · rw [hvalue]
      exact hfirst
    · exact .inr hvalue

end Action

namespace World

variable {world world' : World}

theorem Fresh.quiet (h : world.Fresh []) : world.Quiet :=
  fun id watch hwatch hheld => (h id watch hwatch hheld List.not_mem_nil).quiet world.effects

end World

namespace Action

open World

variable {world world' : World} {mayWrite : BindingKind → Bool} {scope : ScopeId} {name source : String}
  {value : Value}

/-- A write that ends well changes nothing, or else the watches that hear of it are recalculated. -/
theorem writeIf_done {done : Bool}
    (h : (writeIf mayWrite scope name value).run world = (.ok done, world')) :
    world' = world ∨ ∃ owner binding, world.store.owned? scope name = some (owner, binding) ∧
      mayWrite binding.kind = true ∧
      (recalculateAll ((world.table owner).live world.isLive name)).run
        (written world owner name ⟨value, binding.kind⟩) = (.ok (), world') ∧
      Recalculates ((world.table owner).live world.isLive name)
        (written world owner name ⟨value, binding.kind⟩) world' := by
  rcases writeIf_cases h with ⟨rfl, -, -⟩ | ⟨owner, binding, -, howned, hkind, outcome, hr, hresult⟩
  · exact .inl rfl
  · refine .inr ⟨owner, binding, howned, hkind, ?_⟩
    obtain ⟨last, ⟨hall, hsteps⟩ | ⟨hall, -⟩⟩ := recalculateAll_cases
        ((world.table owner).live world.isLive name) (written world owner name ⟨value, binding.kind⟩)
    · obtain ⟨rfl, rfl⟩ := Prod.mk.inj (hr.symm.trans hall)
      exact ⟨hr, hsteps⟩
    · obtain ⟨rfl, rfl⟩ := Prod.mk.inj (hr.symm.trans hall)
      cases hresult

theorem writeIf_records {done : Bool}
    (h : (writeIf mayWrite scope name value).run world = (.ok done, world')) :
    world.effects.calls.length ≤ world'.effects.calls.length := by
  rcases writeIf_done h with rfl | ⟨owner, binding, -, -, -, hsteps⟩
  · exact Nat.le_refl _
  · exact hsteps.records

/-- **A silent write leaves everybody up to date.** -/
theorem writeIf_silent (hwired : world.Wired) (hplain : Plain world.store value) (hfresh : world.Fresh [])
    {done : Bool} (h : (writeIf mayWrite scope name value).run world = (.ok done, world'))
    (hsilent : world'.effects.calls.length = world.effects.calls.length) : world'.Fresh [] := by
  have hwired' := (writeIf_keeps hwired hplain h).wired
  have hquiet : world'.Quiet := by
    rcases writeIf_done h with rfl | ⟨owner, binding, -, -, hr, hsteps⟩
    · exact hfresh.quiet
    · have hrec := recalculated_written hwired hr
      intro id later hlater hheld
      by_cases htold : id ∈ (world.table owner).live world.isLive name
      · rw [hsteps.sameWatches.store]
        exact hsteps.quiet hsilent htold hlater _
      · have hwatch : world.watches[id]? = some later := (hrec.others id htold).symm.trans hlater
        have hcurrent := hfresh id later hwatch hheld List.not_mem_nil
        exact (current_of_not_told hwired hrec hwired'.orderly hwatch hheld htold hcurrent).quiet _
  have hleft := writeIf_fresh hwired hplain hfresh h hquiet
  simpa [staleAfter] using hleft

/-- **A silent watch leaves everybody up to date**, itself included. -/
theorem watch_silent (hwired : world.Wired) (hfresh : world.Fresh [])
    {result : Except SyntaxError WatchId} (h : (watch scope source).run world = (.ok result, world'))
    (hsilent : world'.effects.calls.length = world.effects.calls.length) : world'.Fresh [] := by
  refine watch_fresh hwired hfresh h ?_
  rcases watch_ends h with ⟨⟨e, rfl⟩, -, -⟩ | ⟨expression, v, e, e', hread, heval, -, rfl⟩
  · have hrest : { world with effects := e }.Fresh [] := hfresh
    exact hrest.quiet
  · intro id watch hwatch hheld
    rw [watches_watched] at hwatch
    rw [store_watched]
    by_cases hlt : id < world.watches.length
    · rw [List.getElem?_append_left hlt] at hwatch
      exact (hfresh id watch hwatch hheld List.not_mem_nil).quiet _
    · obtain rfl : watch = ⟨expression, v, 0, true⟩ := by
        rw [List.getElem?_append_right (Nat.le_of_not_lt hlt)] at hwatch
        exact List.mem_singleton.mp (List.mem_of_getElem? hwatch)
      have hreading := @Template.parse_silent world.store scope source world.effects
      rw [← Template.read_eq_parse, hread] at hreading
      rw [effects_watched, ← show e.calls = world.effects.calls from hreading] at hsilent
      refine quiet_of_silent (e := e) ?_ _
      rw [heval]
      exact hsilent

end Action

end LiveTemplate
