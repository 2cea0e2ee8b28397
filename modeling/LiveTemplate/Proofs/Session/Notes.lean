import LiveTemplate.Proofs.Watch.Silence
import LiveTemplate.Proofs.Watch.Standing
import LiveTemplate.Proofs.Watch.Steps
/-!
# Templates that are noted

Whoever watches templates in a root can note of each of them which names were bound when it was asked for.
That is enough to tell what its watch is of, at any later time: of what the template is read to where only
these names are bound.  Binding a new name does not change this, nor does writing.

So a watch that is up to date has the text that the template has without the names that are new.  If it
mentions none of them, that is the text that it has.
-/

set_option autoImplicit false

namespace LiveTemplate

open Value
open Run (Ends)
open LiveTemplate.Action (run_put)

/-! ## Roots that go on -/

namespace Store

variable {store store' : Store} {scope : ScopeId} {name : String} {names : List String}

/-- In the second store the root binds what it binds in the first one, but for the values of names that can
be written.  It may bind more. -/
structure GoesOn (store store' : Store) (scope : ScopeId) : Prop where
  cells : store.cells = store'.cells
  lineage : store.lineage scope = store'.lineage scope
  viewport : store.viewport scope = store'.viewport scope
  lasting : ∀ name, (store.ownBinding? scope name).isSome = true →
    (store.ownBinding? scope name).map Binding.lasting = (store'.ownBinding? scope name).map Binding.lasting

theorem Rewritten.goesOn (h : Rewritten store store') (scope : ScopeId) : store.GoesOn store' scope :=
  ⟨h.cells, h.lineage scope, h.viewport scope, fun name _ => h.bindings scope name⟩

theorem GoesOn.bind (hnew : store.ownBinding? scope name = none) (binding : Binding) :
    store.GoesOn (store.bind scope name binding) scope := by
  refine ⟨rfl, (lineage_bind ..).symm, (viewport_bind ..).symm, fun other hother => ?_⟩
  rw [ownBinding?_bind_other]
  refine .inr fun hsame => ?_
  rw [hsame, hnew] at hother
  cases hother

theorem GoesOn.has (h : store.GoesOn store' scope) (hroot : store.lineage scope = [scope])
    (hname : store.has scope name = true) : store'.has scope name = true := by
  rw [has_root hroot] at hname
  rw [has_root (h.lineage ▸ hroot)]
  have hlasting := congrArg Option.isSome (h.lasting name hname)
  rw [Option.isSome_map, Option.isSome_map] at hlasting
  exact hlasting.symm.trans hname

theorem BindsNative.bind (h : store.BindsNative) {binding : Binding} (hnative : Native binding.value) :
    (store.bind scope name binding).BindsNative := by
  intro id n found hown
  rcases ownBinding?_of_bind hown with rfl | hown
  · exact hnative
  · exact h id n found hown

theorem BindsNative.bindAll {bindings : List (String × Value)} (h : store.BindsNative)
    (hnative : ∀ entry ∈ bindings, Native entry.2) : (store.bindAll scope bindings).BindsNative := by
  induction bindings generalizing store with
  | nil => exact h
  | cons entry rest ih =>
    exact ih (h.bind (hnative entry List.mem_cons_self)) fun other hother =>
      hnative other (List.mem_cons_of_mem _ hother)

end Store

/-! ## What is noted of a watch -/

namespace Session

/-- A template that is watched, and the names that were bound when it was asked for. -/
structure Note where
  source : String
  known : List String

section

variable {store store' : Store} {scope : ScopeId} {note : Note} {watch later : Watch} {expression : Value}

/-- The template is read to the expression where only the known names are bound. -/
def Note.Reads (store : Store) (scope : ScopeId) (note : Note) (expression : Value) : Prop :=
  ∃ tree, TreeGrammar.read note.source.toList = .ok tree ∧
    tree.term.Gives (store.keeping scope note.known) scope expression

/-- The expression has native values. -/
theorem Note.Reads.native (h : note.Reads store scope expression) (horderly : store.Orderly)
    (hnative : store.BindsNative) : Ends Native Fault.IsOverflow (expression.eval store) := by
  obtain ⟨tree, -, hgives⟩ := h
  have hkept := horderly.keeping scope note.known
  rw [← eval_keeping horderly (tree.term_written.gives_readsOnly hkept hgives)]
  exact tree.term_written.gives_native hkept (hnative.keeping scope note.known) hgives

/-- **The template is read to it again** where the known names are bound as they were. -/
theorem Note.Reads.again (h : note.Reads store scope expression) (horderly : store.Orderly)
    (hroot : store.lineage scope = [scope]) (hgoes : store.GoesOn store' scope)
    (hknown : ∀ name ∈ note.known, store.has scope name = true) : note.Reads store' scope expression := by
  obtain ⟨tree, hread, hgives⟩ := h
  refine ⟨tree, hread, tree.term_written.gives_again (horderly.keeping scope _) ?_ hgives⟩
  -- new names are left out on both sides, and the known ones are all bound already
  refine .keeping hroot (hgoes.lineage ▸ hroot) hgoes.cells hgoes.viewport (fun name hname => ?_) _
  exact hgoes.lasting name (Store.has_root hroot name ▸ hknown name hname)

/-- The watch is of a template that was noted. -/
structure Note.Tracks (store : Store) (scope : ScopeId) (note : Note) (watch : Watch) : Prop where
  held : watch.isHeld = true
  native : Native watch.value
  known : ∀ name ∈ note.known, store.has scope name = true
  reads : note.Reads store scope watch.expression

/-- A watch that is made now knows all that is bound, and is of what its template was read to just now. -/
theorem Note.Tracks.made (horderly : store.Orderly) (hnative : store.BindsNative)
    (hroot : store.lineage scope = [scope]) {source : String} {tree : Tree}
    (hread : TreeGrammar.read source.toList = .ok tree) (hgives : tree.term.Gives store scope expression)
    {v : Value} {e e' : Effects} (heval : (expression.eval store).run e = (.ok v, e')) :
    Note.Tracks store scope ⟨source, store.names scope⟩ ⟨expression, v, 0, true⟩ := by
  have hvalues := tree.term_written.gives_native horderly hnative hgives
  have hall : store.AgreeOn (store.keeping scope (store.names scope)) scope tree.term.names :=
    (Store.AgreeOn.ofKeeping hroot fun name _ hname => (Store.mem_names_root hroot).mpr hname).symm
  exact ⟨rfl, hvalues.value heval, fun name hname => (Store.mem_names_root hroot).mp hname, tree, hread,
    tree.term_written.gives_again horderly hall hgives⟩

/-- It is that of the template when names are written or bound, and it is recalculated. -/
theorem Note.Tracks.again (h : note.Tracks store scope watch) (horderly : store.Orderly)
    (hroot : store.lineage scope = [scope]) (hgoes : store.GoesOn store' scope) (horderly' : store'.Orderly)
    (hnative : store'.BindsNative) (hremains : watch.Remains later) (hvalue : later.value = watch.value ∨
      ∃ e e', (watch.expression.eval store').run e = (.ok later.value, e')) :
    note.Tracks store' scope later := by
  have hreads := h.reads.again horderly hroot hgoes h.known
  refine ⟨hremains.isHeld.trans h.held, ?_, fun name hname => hgoes.has hroot (h.known name hname), ?_⟩
  · rcases hvalue with hvalue | ⟨e, e', hr⟩
    · rw [hvalue]
      exact h.native
    · exact (hreads.native horderly' hnative).value hr
  · rw [hremains.expression]
    exact hreads

/-- A line that shows a template: as it is where only the known names are bound, and so as it is if it
mentions no others that are bound. -/
def Note.Shown (store : Store) (scope : ScopeId) (note : Note) (line : String) : Prop :=
  ∃ text, line = "  " ++ note.source ++ " => " ++ text ∧
    Template.Shows (store.keeping scope note.known) scope note.source text ∧
    ∀ tree, TreeGrammar.read note.source.toList = .ok tree →
      (∀ name ∈ tree.names, store.has scope name = true → name ∈ note.known) →
      Template.Shows store scope note.source text

/-- **A watch that is up to date shows its template.** -/
theorem Note.Tracks.shown (h : note.Tracks store scope watch) (horderly : store.Orderly)
    (hnative : store.BindsNative) (hroot : store.lineage scope = [scope]) (hcurrent : watch.IsCurrent store) :
    note.Shown store scope ("  " ++ note.source ++ " => " ++ watch.value.toText) := by
  have hvalues := h.reads.native horderly hnative
  obtain ⟨tree, hread, hgives⟩ := h.reads
  have hkept := horderly.keeping scope note.known
  refine ⟨_, rfl, ?_, fun tree' hread' hnames => ?_⟩
  · exact hcurrent.shows h.native hvalues hread hgives
      (eval_keeping horderly (tree.term_written.gives_readsOnly hkept hgives))
  · obtain rfl : tree' = tree := Except.ok.inj (hread'.symm.trans hread)
    refine hcurrent.shows h.native hvalues hread (tree'.term_written.gives_again hkept ?_ hgives) rfl
    exact .ofKeeping hroot (tree'.names_term ▸ hnames)

end

/-! ## What is noted of all watches -/

/-- Every watch of the world is noted, in order, and up to date. -/
structure Tracked (world : World) (scope : ScopeId) (notes : List Note) : Prop where
  wired : world.Wired
  fresh : world.Fresh []
  native : world.store.BindsNative
  root : world.store.lineage scope = [scope]
  count : world.watches.length = notes.length
  tracks : ∀ (id : WatchId) (note : Note) (watch : Watch), notes[id]? = some note →
    world.watches[id]? = some watch → note.Tracks world.store scope watch

variable {scope : ScopeId} {world world' : World} {notes : List Note} {name source : String} {value : Value}

theorem Tracked.withEffects (h : Tracked world scope notes) (e : Effects) :
    Tracked { world with effects := e } scope notes :=
  ⟨h.wired.withEffects e, h.fresh, h.native, h.root, h.count, h.tracks⟩

/-- **Binding a new name** keeps the watches as they are noted. -/
theorem Tracked.put (h : Tracked world scope notes) (hnew : world.store.has scope name = false)
    (hvalue : Native value) :
    Tracked { world with store := world.store.bind scope name ⟨value, .user⟩ } scope notes := by
  have hnone : world.store.ownBinding? scope name = none := by
    rw [Store.has_root h.root] at hnew
    exact Option.isNone_iff_eq_none.mp (Option.isSome_eq_false_iff.mp hnew)
  have hplain := hvalue.plain world.store
  have hwired := (Action.put_keeps h.wired hplain (run_put scope name .user value world)).wired
  have hnative : (world.store.bind scope name ⟨value, .user⟩).BindsNative := h.native.bind hvalue
  refine ⟨hwired, Action.put_fresh h.wired hplain hnone h.fresh (run_put ..), hnative, ?_, h.count, ?_⟩
  · exact (Store.lineage_bind ..).trans h.root
  · intro id note watch hnote hwatch
    exact (h.tracks id note watch hnote hwatch).again h.wired.orderly h.root (.bind hnone _) hwired.orderly
      hnative ⟨rfl, rfl⟩ (.inl rfl)

/-- **A silent write** keeps the watches as they are noted. -/
theorem Tracked.write (h : Tracked world scope notes) (hvalue : Native value) {done : Bool}
    (hr : (Action.userWrite scope name value).run world = (.ok done, world'))
    (hsilent : world'.effects.calls.length = world.effects.calls.length) : Tracked world' scope notes := by
  have hplain := hvalue.plain world.store
  have hwired := (Action.writeIf_keeps h.wired hplain hr).wired
  have hfresh := Action.writeIf_silent h.wired hplain h.fresh hr hsilent
  have hgoes := (Action.writeIf_rewritten rfl hr).goesOn scope
  rcases Action.writeIf_done hr with rfl | ⟨owner, binding, -, -, -, hsteps⟩
  · exact h
  · have hsame := hsteps.sameWatches
    have hnative : world'.store.BindsNative := by
      rw [hsame.store]
      exact h.native.bind hvalue
    refine ⟨hwired, hfresh, hnative, hgoes.lineage ▸ h.root, hsame.count.trans h.count, ?_⟩
    -- who was told has the value of its expression in the new store, and the others have what they had
    intro id note later hnote hlater
    obtain ⟨watch, hwatch, hremains, hlast⟩ := hsteps.value hlater
    rw [← hsame.store] at hlast
    exact (h.tracks id note watch hnote hwatch).again h.wired.orderly h.root hgoes hwired.orderly hnative
      hremains hlast

/-- **A silent watch** is noted with what is bound now, if its template can be read. -/
theorem Tracked.watch (h : Tracked world scope notes) {result : Except SyntaxError WatchId}
    (hr : (Action.watch scope source).run world = (.ok result, world'))
    (hsilent : world'.effects.calls.length = world.effects.calls.length) :
    (∃ mistake cause, result = .error mistake ∧ TreeGrammar.read source.toList = .error cause ∧
      Tracked world' scope notes) ∨
    ∃ tree, result = .ok notes.length ∧ TreeGrammar.read source.toList = .ok tree ∧
      Tracked world' scope (notes ++ [⟨source, world.store.names scope⟩]) := by
  have hwired := (Action.watch_keeps h.wired hr).wired
  have hfresh := Action.watch_silent h.wired h.fresh hr hsilent
  rcases Action.watch_ends hr with ⟨⟨e, rfl⟩, hnone, -⟩ | ⟨expression, v, e, e', hread, heval, hmade, rfl⟩
  · cases result with
    | ok id => exact absurd rfl (hnone id)
    | error mistake =>
      obtain ⟨e', hread⟩ := Action.watch_rejects hr
      rw [Template.read_eq_parse] at hread
      obtain ⟨cause, rest, hrejected, -⟩ := Template.parse_rejects hread
      exact .inl ⟨mistake, _, rfl, hrejected, h.withEffects e⟩
  · rw [Template.read_eq_parse] at hread
    obtain ⟨tree, htree, hgives⟩ := (Template.parse_ends world.store scope source).value hread
    refine .inr ⟨tree, ?_, htree, hwired, hfresh, ?_, ?_, ?_, ?_⟩
    · rw [← h.count]
      exact Except.ok.inj hmade
    · rw [Action.store_watched]
      exact h.native
    · rw [Action.store_watched]
      exact h.root
    · rw [Action.watches_watched, List.length_append, List.length_append, h.count]
      rfl
    · intro id note watch hnote hwatch
      rw [Action.watches_watched] at hwatch
      rw [Action.store_watched]
      by_cases hlt : id < notes.length
      · rw [List.getElem?_append_left hlt] at hnote
        rw [List.getElem?_append_left (h.count ▸ hlt)] at hwatch
        exact h.tracks id note watch hnote hwatch
      · rw [List.getElem?_append_right (Nat.le_of_not_lt hlt)] at hnote
        rw [List.getElem?_append_right (h.count ▸ Nat.le_of_not_lt hlt)] at hwatch
        obtain rfl : note = ⟨source, world.store.names scope⟩ :=
          List.mem_singleton.mp (List.mem_of_getElem? hnote)
        obtain rfl : watch = ⟨expression, v, 0, true⟩ :=
          List.mem_singleton.mp (List.mem_of_getElem? hwatch)
        exact .made h.wired.orderly h.native h.root htree hgives heval

end Session

end LiveTemplate
