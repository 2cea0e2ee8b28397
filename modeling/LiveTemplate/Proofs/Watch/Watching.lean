import LiveTemplate.Proofs.Template.Reading
import LiveTemplate.Proofs.Watch.Writing
/-!
# Making a watch

A new watch is listed under each name of its expression, with the scope that owns the name as seen
from the scope in which the template was read.  That is the scope of the symbol of this name: both
come of the same look-up.  So the new watch is wired as all the others are.
-/

set_option autoImplicit false

namespace LiveTemplate

open Value
open Run (Ends)

namespace World

/-- The world in which a watch is listed under names, with the scopes that these concern. -/
def registered (world : World) (scope : ScopeId) (id : WatchId) : List String → World
  | [] => world
  | name :: rest =>
    registered (world.modifyTable (world.store.concerned scope name) fun table =>
      table.add name id) scope id rest

variable {world : World} {scope : ScopeId} {id other : WatchId} {names : List String}

@[simp]
theorem store_registered : (world.registered scope id names).store = world.store := by
  induction names generalizing world with
  | nil => rfl
  | cons name rest ih => exact ih

@[simp]
theorem watches_registered : (world.registered scope id names).watches = world.watches := by
  induction names generalizing world with
  | nil => rfl
  | cons name rest ih => exact ih

@[simp]
theorem effects_registered : (world.registered scope id names).effects = world.effects := by
  induction names generalizing world with
  | nil => rfl
  | cons name rest ih => exact ih

@[simp]
theorem length_tables_registered :
    (world.registered scope id names).tables.length = world.tables.length := by
  induction names generalizing world with
  | nil => rfl
  | cons name rest ih => exact ih.trans (List.length_modify ..)

/-- Adding a watch to the table of a scope changes one list, if there is such a scope. -/
theorem listed_modifyTable_add (owner : ScopeId) (name : String) (s : ScopeId) (n : String) :
    ((world.modifyTable owner fun table => table.add name id).table s).listed n =
      (world.table s).listed n ++
        if s = owner ∧ owner < world.tables.length ∧ n = name then [id] else [] := by
  by_cases hs : s = owner
  · subst hs
    by_cases hlt : s < world.tables.length
    · rw [table_modifyTable_self hlt, WatchTable.listed_add]
      by_cases hn : n = name <;> simp [hn, hlt]
    · unfold modifyTable
      rw [List.modify_eq_self (Nat.le_of_not_lt hlt)]
      simp [hlt]
  · rw [table_modifyTable_other hs]
    simp [hs]

theorem mem_listed_add {owner s : ScopeId} {name n : String} :
    other ∈ ((world.modifyTable owner fun table => table.add name id).table s).listed n ↔
      other ∈ (world.table s).listed n ∨
        (s = owner ∧ owner < world.tables.length ∧ n = name ∧ other = id) := by
  rw [listed_modifyTable_add, List.mem_append]
  split <;> simp_all

theorem mem_registered_of_mem {s : ScopeId} {n : String} (h : other ∈ (world.table s).listed n) :
    other ∈ ((world.registered scope id names).table s).listed n := by
  induction names generalizing world with
  | nil => exact h
  | cons name rest ih => exact ih (mem_listed_add.mpr (.inl h))

/-- **A watch is listed under each of its names.** -/
theorem mem_registered {n : String} (hn : n ∈ names)
    (hlt : world.store.concerned scope n < world.tables.length) :
    id ∈ ((world.registered scope id names).table (world.store.concerned scope n)).listed n := by
  induction names generalizing world with
  | nil => cases hn
  | cons name rest ih =>
    rcases List.mem_cons.mp hn with rfl | hn
    · have hadded : id ∈ ((world.modifyTable (world.store.concerned scope n) fun table =>
          table.add n id).table (world.store.concerned scope n)).listed n :=
        mem_listed_add.mpr (.inr ⟨rfl, hlt, rfl, rfl⟩)
      unfold registered
      exact mem_registered_of_mem hadded
    · have hlt' : world.store.concerned scope n < (world.modifyTable
          (world.store.concerned scope name) fun table => table.add name id).tables.length :=
        (List.length_modify ..).symm ▸ hlt
      exact ih hn hlt'

/-- It is listed once, if each name is there once. -/
theorem registered_tidy {count : Nat} (h : ∀ table ∈ world.tables, table.Tidy count)
    (hid : id < count) (hnames : names.Nodup)
    (hnew : ∀ n ∈ names, ∀ s, id ∉ (world.table s).listed n) :
    ∀ table ∈ (world.registered scope id names).tables, table.Tidy count := by
  induction names generalizing world with
  | nil => exact h
  | cons name rest ih =>
    obtain ⟨hname, hrest⟩ := List.nodup_cons.mp hnames
    refine ih (modifyTable_forall h fun hlt => ?_) hrest fun n hn s hmem => ?_
    · exact (h _ (table_mem hlt)).add hid (hnew name List.mem_cons_self _)
    · rcases mem_listed_add.mp hmem with hmem | ⟨-, -, rfl, -⟩
      · exact hnew n (List.mem_cons_of_mem _ hn) s hmem
      · exact hname hn

end World

namespace Action

open Run (run_bind run_pure)
open World

variable {world world' : World} {scope : ScopeId} {source : String}

theorem run_registerAll (scope : ScopeId) (id : WatchId) (names : List String) (world : World) :
    (registerAll scope id names).run world = (.ok (), world.registered scope id names) := by
  induction names generalizing world with
  | nil => rfl
  | cons name rest ih =>
    unfold registerAll register
    simp only [run_bind, run_store, run_modify, ih]
    rfl

theorem read_ends (store : Store) (scope : ScopeId) (source : String) :
    Ends (fun _ => True) Fault.IsOverflow (Template.read store scope source) := by
  unfold Template.read
  split
  · exact (Template.parse_ends store scope source).mono (fun _ _ => trivial) fun _ hx => hx
  · exact .pure trivial

/-- The world with one more watch, which is listed under its names. -/
def watched (world : World) (scope : ScopeId) (expression value : Value) (e : Effects) : World :=
  let grown : World := { world with
    effects := e, watches := world.watches ++ [⟨expression, value, 0, true⟩] }
  grown.registered scope world.watches.length (expression.symbols world.store)

theorem run_watchExpression_ok (world : World) {expression v : Value} {e : Effects}
    (hr : (expression.eval world.store).run world.effects = (.ok v, e)) :
    (watchExpression expression).run world =
      (.ok world.watches.length, { world with
        effects := e, watches := world.watches ++ [⟨expression, v, 0, true⟩] }) := by
  unfold watchExpression
  simp only [run_bind, run_compute, hr]
  rfl

theorem run_watchExpression_fault (world : World) {expression : Value} {x : Fault} {e : Effects}
    (hr : (expression.eval world.store).run world.effects = (.error x, e)) :
    (watchExpression expression).run world = (.error x, { world with effects := e }) := by
  unfold watchExpression
  simp only [run_bind, run_compute, hr]

/-- Watching reads the template, evaluates what was read, and lists the watch under its names. -/
theorem run_watch (scope : ScopeId) (source : String) (world : World) :
    (watch scope source).run world =
      match (Template.read world.store scope source).run world.effects with
      | (.error x, e) => (.error x, { world with effects := e })
      | (.ok (.error mistake), e) => (.ok (.error mistake), { world with effects := e })
      | (.ok (.ok expression), e) =>
        match (expression.eval world.store).run e with
        | (.error x, e') => (.error x, { world with effects := e' })
        | (.ok v, e') => (.ok (.ok world.watches.length), watched world scope expression v e') := by
  unfold watch
  simp only [run_bind, run_compute]
  rcases (Template.read world.store scope source).run world.effects with ⟨x | mistake | expression, e⟩
  · rfl
  · rfl
  · dsimp only
    rcases hs : (expression.eval world.store).run e with ⟨x | v, e'⟩
    · simp only [run_bind, run_watchExpression_fault { world with effects := e } hs]
    · simp only [run_bind, run_watchExpression_ok { world with effects := e } hs, run_store,
        run_registerAll, run_pure]
      rfl

/-- A watch is made of what was read and of its value, or it is not made. -/
theorem watch_ends {result : Except Fault (Except SyntaxError WatchId)}
    (h : (watch scope source).run world = (result, world')) :
    ((∃ e, world' = { world with effects := e }) ∧ (∀ id, result ≠ .ok (.ok id)) ∧
      ∀ x, result = .error x → x.IsOverflow) ∨
    ∃ expression v e e',
      (Template.read world.store scope source).run world.effects = (.ok (.ok expression), e) ∧
      (expression.eval world.store).run e = (.ok v, e') ∧
      result = .ok (.ok world.watches.length) ∧ world' = watched world scope expression v e' := by
  rw [run_watch] at h
  have hread := read_ends world.store scope source world.effects
  rcases hr : (Template.read world.store scope source).run world.effects with
      ⟨x | mistake | expression, e⟩ <;>
    rw [hr] at h hread
  · cases h
    refine .inl ⟨⟨e, rfl⟩, nofun, ?_⟩
    rintro y ⟨⟩
    exact hread
  · cases h
    exact .inl ⟨⟨e, rfl⟩, nofun, nofun⟩
  · have heval := eval_ends world.store expression e
    dsimp only at h
    rcases hs : (expression.eval world.store).run e with ⟨x | v, e'⟩ <;> rw [hs] at h heval <;> cases h
    · refine .inl ⟨⟨e', rfl⟩, nofun, ?_⟩
      rintro y ⟨⟩
      exact heval
    · exact .inr ⟨expression, v, e, e', rfl, hs, rfl, rfl⟩

/-- A template that is not watched was not read. -/
theorem watch_rejects {mistake : SyntaxError}
    (h : (watch scope source).run world = (.ok (.error mistake), world')) : ∃ e,
      (Template.read world.store scope source).run world.effects = (.ok (.error mistake), e) := by
  rw [run_watch] at h
  rcases hr : (Template.read world.store scope source).run world.effects with
      ⟨x | other | expression, e⟩ <;>
    rw [hr] at h
  · cases h
  · cases h
    exact ⟨e, rfl⟩
  · dsimp only at h
    rcases hs : (expression.eval world.store).run e with ⟨x | v, e'⟩ <;> rw [hs] at h <;> cases h

theorem watch_cases {result : Except Fault (Except SyntaxError WatchId)}
    (hwired : world.Wired) (h : (watch scope source).run world = (result, world')) :
    ((∃ e, world' = { world with effects := e }) ∧ ∀ x, result = .error x → x.IsOverflow) ∨
    ∃ expression v e e', ReadsOnly world.store (Template.Owned world.store scope) expression ∧
      (expression.eval world.store).run e = (.ok v, e') ∧
      result = .ok (.ok world.watches.length) ∧ world' = watched world scope expression v e' := by
  rcases watch_ends h with ⟨hworld, -, hfault⟩ | ⟨expression, v, e, e', hread, heval, hmade⟩
  · exact .inl ⟨hworld, hfault⟩
  · have hreads := Template.read_readsOnly hwired.orderly scope source world.effects
    rw [hread] at hreads
    exact .inr ⟨expression, v, e, e', hreads expression rfl, heval, hmade⟩

section

variable {expression v : Value} {e : Effects}

@[simp]
theorem store_watched : (watched world scope expression v e).store = world.store := by
  simp [watched]

@[simp]
theorem effects_watched : (watched world scope expression v e).effects = e := by
  simp [watched]

theorem watches_watched : (watched world scope expression v e).watches =
    world.watches ++ [⟨expression, v, 0, true⟩] := by
  simp [watched]

theorem mem_watched {id : WatchId} {s : ScopeId} {n : String}
    (h : id ∈ (world.table s).listed n) :
    id ∈ ((watched world scope expression v e).table s).listed n := mem_registered_of_mem h

theorem wired_watched (h : world.Wired)
    (hreads : ReadsOnly world.store (Template.Owned world.store scope) expression) :
    (watched world scope expression v e).Wired := by
  constructor
  · rw [store_watched]
    exact h.orderly
  · rw [store_watched]
    exact length_tables_registered.trans h.tables
  · rw [watches_watched, List.length_append]
    refine registered_tidy (fun table htable => (h.tidy table htable).mono (Nat.le_succ _))
      (Nat.lt_succ_self _) (symbols_nodup _ _) fun n _ s hmem => ?_
    exact Nat.lt_irrefl _ ((h.tidy_table s).listed.2 _ hmem)
  · intro id watch hwatch hheld
    rw [watches_watched] at hwatch
    rw [store_watched]
    by_cases hlt : id < world.watches.length
    · rw [List.getElem?_append_left hlt] at hwatch
      refine (h.hears id watch hwatch hheld).mono ?_
      rintro s n ⟨hown, hmem⟩
      refine ⟨?_, mem_watched hmem⟩
      rw [store_watched]
      exact hown
    · -- the new watch: its symbols and its lists are where its names are owned
      have hid : id = world.watches.length := by
        have hle := (List.getElem?_eq_some_iff.mp hwatch).1
        rw [List.length_append] at hle
        exact Nat.le_antisymm (Nat.le_of_lt_succ hle) (Nat.le_of_not_lt hlt)
      subst hid
      obtain rfl : (⟨expression, v, 0, true⟩ : Watch) = watch := by simpa using hwatch
      refine hreads.symbols.mono ?_
      rintro owner n ⟨⟨binding, howned⟩, hn⟩
      have hown := Store.ownBinding?_of_owned? howned
      have hconcerned : world.store.concerned scope n = owner := by
        simp [Store.concerned_eq, howned]
      have hlt : world.store.concerned scope n < world.tables.length := by
        rw [hconcerned, h.tables]
        exact Store.lt_of_ownBinding? hown
      have hlisted : world.watches.length ∈ ((watched world scope expression v e).table
          (world.store.concerned scope n)).listed n := by
        unfold watched
        exact mem_registered hn hlt
      rw [hconcerned] at hlisted
      refine ⟨⟨binding, ?_⟩, hlisted⟩
      rw [store_watched]
      exact hown

end

variable {result : Except Fault (Except SyntaxError WatchId)}

theorem watch_keeps (hwired : world.Wired) (h : (watch scope source).run world = (result, world')) :
    Keeps result world world' := by
  rcases watch_cases hwired h with ⟨⟨e, rfl⟩, hfault⟩ | ⟨expression, v, e, e', hreads, -, rfl, rfl⟩
  · exact ⟨hwired.withEffects e, counts_refl world, hfault⟩
  · refine ⟨wired_watched hwired hreads, fun id watch hwatch => ?_, nofun⟩
    refine ⟨watch, ?_, Nat.le_refl _, Nat.le_succ _⟩
    rw [watches_watched, List.getElem?_append_left (List.getElem?_eq_some_iff.mp hwatch).1]
    exact hwatch

/-- **A new watch is up to date**, and it leaves the others alone. -/
theorem watch_fresh (hwired : world.Wired) {stale : List WatchId} (hfresh : world.Fresh stale)
    (h : (watch scope source).run world = (result, world')) (hquiet : world'.Quiet) :
    world'.Fresh stale := by
  have hwired' := (watch_keeps hwired h).wired
  rcases watch_cases hwired h with ⟨⟨e, rfl⟩, -⟩ | ⟨expression, v, e, e', hreads, hr, rfl, rfl⟩
  · exact hfresh
  · intro id watch hwatch hheld hstale
    by_cases hlt : id < world.watches.length
    · rw [watches_watched, List.getElem?_append_left hlt] at hwatch
      rw [store_watched]
      exact hfresh id watch hwatch hheld hstale
    · refine hwired'.current_of_matches hquiet hwatch hheld ?_
      have hnew : watch = ⟨expression, v, 0, true⟩ := by
        rw [watches_watched, List.getElem?_append_right (Nat.le_of_not_lt hlt)] at hwatch
        exact List.mem_singleton.mp (List.mem_of_getElem? hwatch)
      rw [hnew, store_watched]
      exact ⟨e, e', v, hr, .inr rfl⟩

end Action

end LiveTemplate
