import LiveTemplate.Proofs.Value.Symbols
import LiveTemplate.Proofs.Watch.Recalculation
/-!
# How watches are wired

A watch hears of a binding if it is listed, under the name, with the scope that binds it.  A world is
wired if every watch that is held hears of every binding that its expression reads.  The bindings
are the ones that the symbols of the expression stand for, whatever other scopes bind to the same
names; so what is bound later in a nearer scope redirects neither the symbols nor the lists.

Wiring survives everything that a world does while no scope is let go.
-/

set_option autoImplicit false

namespace LiveTemplate

open Value
open Run (Ends)

namespace World

/-! ## Tables of scopes -/

variable {world world' : World}

theorem table_modifyTable_self {scope : ScopeId} (h : scope < world.tables.length)
    (change : WatchTable → WatchTable) :
    (world.modifyTable scope change).table scope = change (world.table scope) := by
  simp [table, modifyTable, List.getElem?_eq_getElem h]

theorem table_modifyTable_other {scope other : ScopeId} (h : other ≠ scope)
    (change : WatchTable → WatchTable) :
    (world.modifyTable scope change).table other = world.table other := by
  simp [table, modifyTable, Ne.symm h]

theorem modifyTable_forall {P : WatchTable → Prop} (h : ∀ table ∈ world.tables, P table)
    {scope : ScopeId} {change : WatchTable → WatchTable}
    (hchange : scope < world.tables.length → P (change (world.table scope))) :
    ∀ table ∈ (world.modifyTable scope change).tables, P table := by
  intro table htable
  obtain ⟨i, hi⟩ := List.mem_iff_getElem?.mp htable
  rw [modifyTable, List.getElem?_modify] at hi
  obtain ⟨old, hold, rfl⟩ := Option.map_eq_some_iff.mp hi
  by_cases hscope : scope = i
  · subst hscope
    have htable : world.table scope = old := by
      unfold World.table
      rw [hold]
      rfl
    rw [if_pos rfl, ← htable]
    exact hchange (List.getElem?_eq_some_iff.mp hold).1
  · rw [if_neg hscope]
    exact h _ (List.mem_of_getElem? hold)

theorem table_mem {scope : ScopeId} (h : scope < world.tables.length) :
    world.table scope ∈ world.tables := by
  simp [table, List.getElem?_eq_getElem h]

theorem table_eq_empty {scope : ScopeId} (h : ¬scope < world.tables.length) :
    world.table scope = WatchTable.empty := by
  simp [table, List.getElem?_eq_none (Nat.le_of_not_lt h)]

theorem lt_of_mem_listed {id : WatchId} {scope : ScopeId} {name : String}
    (h : id ∈ (world.table scope).listed name) : scope < world.tables.length := by
  by_contra hge
  rw [table_eq_empty hge] at h
  cases h

/-- Who lives stays listed when a table loses the dead. -/
theorem mem_listed_compact {id : WatchId} {scope other : ScopeId} {name n : String}
    (h : id ∈ (world.table other).listed n) (hlive : world.isLive id = true) :
    id ∈ ((world.modifyTable scope fun table =>
      table.compact world.isLive name).table other).listed n := by
  by_cases hother : other = scope
  · subst hother
    rw [table_modifyTable_self (lt_of_mem_listed h)]
    exact WatchTable.mem_listed_compact h hlive
  · rwa [table_modifyTable_other hother]

/-! ## Wiring -/

/-- The watch is to hear of the binding that the scope has under the name. -/
def Hears (world : World) (id : WatchId) (scope : ScopeId) (name : String) : Prop :=
  (∃ binding, world.store.ownBinding? scope name = some binding) ∧
    id ∈ (world.table scope).listed name

/-- Every watch that is held hears of all that its expression reads, and is told once. -/
structure Wired (world : World) : Prop where
  orderly : world.store.Orderly
  tables : world.tables.length = world.store.scopes.length
  tidy : ∀ table ∈ world.tables, table.Tidy world.watches.length
  hears : ∀ (id : WatchId) (watch : Watch), world.watches[id]? = some watch → watch.isHeld = true →
    ReadsOnly world.store (world.Hears id) watch.expression

theorem Wired.tidy_table (h : world.Wired) (scope : ScopeId) :
    (world.table scope).Tidy world.watches.length := by
  by_cases hlt : scope < world.tables.length
  · exact h.tidy _ (table_mem hlt)
  · rw [table_eq_empty hlt]
    exact fun _ he => nomatch he

theorem Wired.plain_seen (h : world.Wired) {id : WatchId} {scope : ScopeId} {name : String}
    (hhears : world.Hears id scope name) : Plain world.store (world.store.seen scope name) := by
  obtain ⟨⟨binding, hown⟩, -⟩ := hhears
  exact h.orderly.plain_seen hown

/-- Wiring is a matter of the lists and of what is bound, not of values. -/
theorem Wired.transfer (h : world.Wired) (horderly : world'.store.Orderly)
    (hcells : world.store.cells = world'.store.cells)
    (hbound : ∀ scope name binding, world.store.ownBinding? scope name = some binding →
      ∃ binding', world'.store.ownBinding? scope name = some binding')
    (htables : world'.tables.length = world'.store.scopes.length)
    (htidy : ∀ table ∈ world'.tables, table.Tidy world'.watches.length)
    (hwatches : ∀ (id : WatchId) (later : Watch), world'.watches[id]? = some later →
      later.isHeld = true → ∃ watch : Watch, world.watches[id]? = some watch ∧
        watch.isHeld = true ∧ later.expression = watch.expression ∧
        ∀ scope name, id ∈ (world.table scope).listed name → id ∈ (world'.table scope).listed name) :
    world'.Wired := by
  refine ⟨horderly, htables, htidy, fun id later hlater hheld => ?_⟩
  obtain ⟨watch, hwatch, hheld', hexpression, hlisted⟩ := hwatches id later hlater hheld
  rw [hexpression]
  refine ((h.hears id watch hwatch hheld').congr hcells).mono ?_
  rintro scope name ⟨⟨binding, hown⟩, hmem⟩
  exact ⟨hbound scope name binding hown, hlisted scope name hmem⟩

/-! ## What keeps wiring -/

theorem Wired.withEffects (h : world.Wired) (e : Effects) : { world with effects := e }.Wired :=
  ⟨h.orderly, h.tables, h.tidy, h.hears⟩

theorem bound_bind {store : Store} {id : ScopeId} {name : String} {binding : Binding}
    {scope : ScopeId} {n : String} {old : Binding} (hown : store.ownBinding? scope n = some old) :
    ∃ binding', (store.bind id name binding).ownBinding? scope n = some binding' := by
  by_cases hsame : scope = id ∧ n = name
  · obtain ⟨rfl, rfl⟩ := hsame
    obtain ⟨found, hs, -⟩ := Store.scope?_of_ownBinding? hown
    exact ⟨binding, Store.ownBinding?_bind_self store _ _ _ hs⟩
  · refine ⟨old, ?_⟩
    rw [Store.ownBinding?_bind_other store binding (Decidable.not_and_iff_or_not.mp hsame)]
    exact hown

theorem Wired.bind (h : world.Wired) (id : ScopeId) (name : String) {binding : Binding}
    (hplain : Plain world.store binding.value) :
    { world with store := world.store.bind id name binding }.Wired := by
  refine h.transfer (h.orderly.bind id name hplain) rfl (fun _ _ _ hown => bound_bind hown) ?_ h.tidy
    fun other watch hwatch hheld => ⟨watch, hwatch, hheld, rfl, fun _ _ hmem => hmem⟩
  rw [h.tables]
  exact (List.length_modify ..).symm

/-- Lists may lose the dead. -/
theorem Wired.compact (h : world.Wired) (scope : ScopeId) (name : String) :
    (world.modifyTable scope fun table => table.compact world.isLive name).Wired := by
  refine h.transfer h.orderly rfl (fun _ _ binding hown => ⟨binding, hown⟩)
    ((List.length_modify ..).trans h.tables)
    (modifyTable_forall h.tidy fun _ => (h.tidy_table scope).compact) ?_
  intro id watch hwatch hheld
  refine ⟨watch, hwatch, hheld, rfl, fun other n hmem => ?_⟩
  have hwatch : world.watches[id]? = some watch := hwatch
  exact mem_listed_compact hmem (by simp [isLive, hwatch, hheld])

theorem Wired.recalculated (h : world.Wired) {α : Type} {ids : List WatchId}
    {result : Except Fault α} (hr : Action.Recalculated ids result world world') : world'.Wired := by
  have hback : ∀ (id : WatchId) (later : Watch), world'.watches[id]? = some later →
      ∃ watch : Watch, world.watches[id]? = some watch ∧ watch.Follows later := by
    intro id later hlater
    have hlt : id < world.watches.length := hr.count ▸ (List.getElem?_eq_some_iff.mp hlater).1
    obtain ⟨later', hlater', hfollows⟩ := hr.each id _ (List.getElem?_eq_getElem hlt)
    obtain rfl : later' = later := Option.some.inj (hlater'.symm.trans hlater)
    exact ⟨_, List.getElem?_eq_getElem hlt, hfollows⟩
  refine h.transfer (hr.store ▸ h.orderly) (by rw [hr.store])
    (fun _ _ binding hown => ⟨binding, hr.store ▸ hown⟩) (by rw [hr.tables, hr.store, h.tables])
    (by rw [hr.tables, hr.count]; exact h.tidy) ?_
  intro id later hlater hheld
  obtain ⟨watch, hwatch, hfollows⟩ := hback id later hlater
  refine ⟨watch, hwatch, hfollows.isHeld ▸ hheld, hfollows.expression, fun scope name hmem => ?_⟩
  unfold World.table
  rw [hr.tables]
  exact hmem

theorem Wired.grown (h : world.Wired) (ancestors : List ScopeId) (viewport : Viewport)
    (agent : Agent) :
    { world with
      store := world.store.grown ancestors viewport agent
      tables := world.tables ++ [WatchTable.empty] }.Wired := by
  refine h.transfer (h.orderly.grown ancestors viewport agent) rfl ?_ ?_ ?_ ?_
  · intro scope name binding hown
    exact ⟨binding, (Store.ownBinding?_grown ancestors viewport agent scope name).trans hown⟩
  · simp [Store.grown, h.tables]
  · intro table htable
    rcases List.mem_append.mp htable with htable | htable
    · exact h.tidy table htable
    · rw [List.mem_singleton.mp htable]
      exact fun _ he => nomatch he
  · intro id watch hwatch hheld
    refine ⟨watch, hwatch, hheld, rfl, fun scope name hmem => ?_⟩
    have hsame : (world.tables ++ [WatchTable.empty])[scope]? = world.tables[scope]? :=
      List.getElem?_append_left (lt_of_mem_listed hmem)
    unfold World.table
    rw [hsame]
    exact hmem

theorem Wired.unheld (h : world.Wired) (id : WatchId) :
    (world.modifyWatch id fun watch => { watch with isHeld := false }).Wired := by
  refine h.transfer h.orderly rfl (fun _ _ binding hown => ⟨binding, hown⟩) h.tables ?_ ?_
  · rw [show (world.modifyWatch id _).watches.length = world.watches.length from
      List.length_modify ..]
    exact h.tidy
  · intro other later hlater hheld
    by_cases hother : other = id
    · subst hother
      simp only [modifyWatch, List.getElem?_modify, if_true] at hlater
      obtain ⟨watch, -, rfl⟩ := Option.map_eq_some_iff.mp hlater
      cases hheld
    · rw [watches_modifyWatch_other hother] at hlater
      exact ⟨later, hlater, hheld, rfl, fun _ _ hmem => hmem⟩

end World

end LiveTemplate
