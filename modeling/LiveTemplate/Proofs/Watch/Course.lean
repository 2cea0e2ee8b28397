import LiveTemplate.Proofs.Watch.Growing
import LiveTemplate.Proofs.Watch.Repetition
import LiveTemplate.Proofs.Watch.Shrinking
/-!
# Whatever is done to a world

Scopes are made and let go, names are bound, bound anew and written, containers are edited in place,
watches are made, listed, recalculated and let go: in any order, of any values, and whether an action
succeeds or breaks off.  Through all of it every scope has a sound table and comes first in its own
lineage; and a watch stays where it is, with its expression, and is not held again once it was let go.

That is little, but it is true without any condition on what is bound.
-/

set_option autoImplicit false

namespace LiveTemplate

namespace World

/-- Every scope has a table that is sound, and comes first in its own lineage. -/
structure Rooted (world : World) : Prop where
  tables : world.tables.length = world.store.scopes.length
  sound : ∀ table ∈ world.tables, table.Sound
  first : ∀ {id : ScopeId} {found : Scope}, world.store.scope? id = some found →
    ∃ rest, found.lineage = id :: rest

/-- The second world may come after the first one: its scopes are in order if those were, and each
watch is still there. -/
structure Continues (world world' : World) : Prop where
  rooted : world.Rooted → world'.Rooted
  watches : ∀ (id : WatchId) (watch : Watch), world.watches[id]? = some watch →
    ∃ later : Watch, world'.watches[id]? = some later ∧ later.expression = watch.expression ∧
      (later.isHeld = true → watch.isHeld = true)

variable {world world' last : World}

namespace Continues

theorem ofStore (world : World) {store : Store} (hcount : store.scopes.length = world.store.scopes.length)
    (hlineage : ∀ {id : ScopeId} {later : Scope}, store.scope? id = some later →
      ∃ found, world.store.scope? id = some found ∧ later.lineage = found.lineage) :
    world.Continues { world with store := store } where
  rooted h := by
    refine ⟨h.tables.trans hcount.symm, h.sound, fun hlater => ?_⟩
    obtain ⟨found, hfound, heq⟩ := hlineage hlater
    rw [heq]
    exact h.first hfound
  watches _ watch h := ⟨watch, h, rfl, fun hheld => hheld⟩

theorem ofSame (h : world.SameWatches world') : world.Continues world' where
  rooted hrooted := by
    refine ⟨by rw [h.tables, h.store, hrooted.tables], h.tables ▸ hrooted.sound, fun hfound => ?_⟩
    rw [h.store] at hfound
    exact hrooted.first hfound
  watches id watch hwatch := by
    obtain ⟨later, hlater, hremains, -⟩ := h.remains id watch hwatch
    exact ⟨later, hlater, hremains.expression, fun hheld => hremains.isHeld ▸ hheld⟩

theorem refl (world : World) : world.Continues world := .ofSame (.refl world)

theorem trans (h : world.Continues world') (k : world'.Continues last) : world.Continues last where
  rooted hrooted := k.rooted (h.rooted hrooted)
  watches id watch hwatch := by
    obtain ⟨middle, hmiddle, hexpression, hheld⟩ := h.watches id watch hwatch
    obtain ⟨later, hlater, hexpression', hheld'⟩ := k.watches id middle hmiddle
    exact ⟨later, hlater, hexpression'.trans hexpression, hheld ∘ hheld'⟩

theorem modifyTable (world : World) (scope : ScopeId) {change : WatchTable → WatchTable}
    (hchange : ∀ {table : WatchTable}, table.Sound → (change table).Sound) :
    world.Continues (world.modifyTable scope change) where
  rooted h := by
    refine ⟨(List.length_modify ..).trans h.tables, ?_, h.first⟩
    exact modifyTable_forall h.sound fun hlt => hchange (h.sound _ (table_mem hlt))
  watches _ watch h := ⟨watch, h, rfl, fun hheld => hheld⟩

/-- The watches are as many as before, or more. -/
theorem count_le (h : world.Continues world') : world.watches.length ≤ world'.watches.length := by
  by_contra hlt
  obtain ⟨later, hlater, -⟩ := h.watches world'.watches.length _
    (List.getElem?_eq_getElem (Nat.lt_of_not_le hlt))
  exact Nat.lt_irrefl _ (List.getElem?_eq_some_iff.mp hlater).1

/-- A watch that there was lives only if it lived then. -/
theorem isLive (h : world.Continues world') {id : WatchId} (hid : id < world.watches.length)
    (hlive : world'.isLive id = true) : world.isLive id = true := by
  have hwatch := List.getElem?_eq_getElem hid
  obtain ⟨later, hlater, -, hheld⟩ := h.watches id _ hwatch
  unfold World.isLive at hlive ⊢
  rw [hlater] at hlive
  rw [hwatch]
  exact hheld hlive

end Continues

end World

namespace Action

open Run (run_bind run_pure)
open World

/-- Whatever world the action is taken in, that world continues. -/
structure Proceeds {α : Type} (action : Action α) : Prop where
  continues : ∀ world : World, world.Continues (action.run world).2

namespace Proceeds

variable {α β : Type}

protected theorem pure (a : α) : Proceeds (pure a) := ⟨fun world => .refl world⟩

protected theorem throw (x : Fault) : Proceeds (throw x : Action α) := ⟨fun world => .refl world⟩

protected theorem bind {action : Action α} {next : α → Action β} (h : Proceeds action)
    (k : ∀ a, Proceeds (next a)) : Proceeds (action >>= next) := by
  refine ⟨fun world => ?_⟩
  have hfirst := h.continues world
  rw [run_bind]
  rcases hr : action.run world with ⟨x | a, middle⟩ <;> rw [hr] at hfirst
  · exact hfirst
  · exact hfirst.trans ((k a).continues middle)

theorem store : Proceeds store := ⟨fun world => .refl world⟩

theorem compute (computation : Store → Run α) : Proceeds (compute computation) :=
  ⟨fun world => .ofSame (.ofEffects world _)⟩

theorem modifyStore {change : Store → Store} (h : ∀ store, (change store).scopes = store.scopes) :
    Proceeds (modifyStore change) := by
  refine ⟨fun world => .ofStore world (congrArg List.length (h world.store)) ?_⟩
  refine fun {id later} hlater => ⟨later, ?_, rfl⟩
  unfold Store.scope? at hlater ⊢
  rwa [h] at hlater

theorem setCell (ref : Ref) (cell : Cell) :
    Proceeds (Action.modifyStore fun store => store.setCell ref cell) := modifyStore fun _ => rfl

/-! ## Scopes and names -/

theorem put (scope : ScopeId) (name : String) (kind : BindingKind) (value : Value) :
    Proceeds (put scope name kind value) := by
  refine ⟨fun world => .ofStore world (List.length_modify ..) fun hlater => ?_⟩
  rw [Store.scope?_bind] at hlater
  obtain ⟨found, hfound, rfl⟩ := Option.map_eq_some_iff.mp hlater
  refine ⟨found, hfound, ?_⟩
  split <;> rfl

theorem putAll (scope : ScopeId) (bindings : List (String × Value)) :
    Proceeds (putAll scope bindings) := by
  induction bindings with
  | nil => exact .pure ()
  | cons entry rest ih =>
    unfold Action.putAll
    exact (put ..).bind fun _ => ih

theorem extended (world : World) (ancestors : List ScopeId) (viewport : Viewport) (agent : Agent) :
    world.Continues (extended world ancestors viewport agent) where
  rooted h := by
    refine ⟨by simp [Action.extended, Store.grown, h.tables], fun table htable => ?_, ?_⟩
    · rcases List.mem_append.mp htable with htable | htable
      · exact h.sound table htable
      · exact List.mem_singleton.mp htable ▸ WatchTable.sound_empty
    intro id found hfound
    rw [show (Action.extended world ancestors viewport agent).store =
      world.store.grown ancestors viewport agent from rfl, Store.scope?_grown] at hfound
    by_cases hid : id = world.store.scopes.length
    · rw [if_pos hid] at hfound
      obtain rfl := Option.some.inj hfound
      exact ⟨ancestors, by rw [hid]⟩
    · rw [if_neg hid] at hfound
      exact h.first hfound
  watches _ watch h := ⟨watch, h, rfl, fun hheld => hheld⟩

theorem newChild (parent : ScopeId) : Proceeds (newChild parent) := by
  refine ⟨fun world => ?_⟩
  obtain ⟨viewport, agent, hrun⟩ := run_newChild parent world
  rw [hrun]
  exact extended world _ viewport agent

theorem newRoot (viewport : Viewport) (agent : Agent) : Proceeds (newRoot viewport agent) := by
  have hadd : Proceeds (addScope fun store => store.addRoot viewport agent) :=
    ⟨fun world => extended world [] viewport agent⟩
  unfold Action.newRoot
  exact hadd.bind fun id => (compute _).bind fun bindings => (putAll id bindings).bind fun _ => .pure id

/-! ## Watches -/

theorem recalculate (id : WatchId) : Proceeds (recalculate id) :=
  ⟨fun _ => .ofSame (recalculate_sameWatches rfl)⟩

theorem notifyScope (scope : ScopeId) (name : String) : Proceeds (notifyScope scope name) := by
  refine ⟨fun world => ?_⟩
  rw [run_notifyScope]
  refine (Continues.modifyTable world scope fun h => ?_).trans (.ofSame (recalculateAll_sameWatches rfl))
  exact h.compact _ name

theorem register (scope : ScopeId) (name : String) (id : WatchId) :
    Proceeds (register scope name id) := ⟨fun world => .modifyTable world scope fun h => h.add name id⟩

theorem registerAll (scope : ScopeId) (id : WatchId) (names : List String) :
    Proceeds (registerAll scope id names) := by
  induction names with
  | nil => exact .pure ()
  | cons name rest ih =>
    unfold Action.registerAll
    exact store.bind fun _ => (register ..).bind fun _ => ih

theorem watchExpression (expression : Value) : Proceeds (watchExpression expression) := by
  unfold Action.watchExpression
  refine (compute _).bind fun value => ⟨fun world => ⟨fun h => ⟨h.tables, h.sound, h.first⟩, ?_⟩⟩
  refine fun id watch hwatch => ⟨watch, ?_, rfl, fun hheld => hheld⟩
  exact (List.getElem?_append_left (List.getElem?_eq_some_iff.mp hwatch).1).trans hwatch

theorem watch (scope : ScopeId) (source : String) : Proceeds (watch scope source) := by
  unfold Action.watch
  refine (compute _).bind fun read => ?_
  cases read with
  | error mistake => exact .pure _
  | ok expression =>
    refine (watchExpression expression).bind fun id => store.bind fun _ => ?_
    exact (registerAll scope id _).bind fun _ => .pure _

theorem unwatch (id : WatchId) : Proceeds (unwatch id) := by
  refine ⟨fun world => ⟨fun h => ⟨h.tables, h.sound, h.first⟩, fun other watch hwatch => ?_⟩⟩
  by_cases hother : other = id
  · subst hother
    exact ⟨_, watches_modifyWatch_self world hwatch _, rfl, nofun⟩
  · exact ⟨watch, (watches_modifyWatch_other hother _).trans hwatch, rfl, fun hheld => hheld⟩

/-! ## Writes and edits -/

theorem writeIf (mayWrite : BindingKind → Bool) (scope : ScopeId) (name : String) (value : Value) :
    Proceeds (writeIf mayWrite scope name value) := by
  unfold Action.writeIf
  refine store.bind fun store => ?_
  split
  · exact .pure false
  · split
    · exact .pure false
    · split
      · exact .pure true
      · exact (put ..).bind fun _ => (notifyScope ..).bind fun _ => .pure true

theorem newArray (items : List Value) : Proceeds (newArray items) := by
  unfold Action.newArray
  exact (compute _).bind fun ref => (setCell ..).bind fun _ => .pure _

theorem newMap (entries : List (String × Value)) : Proceeds (newMap entries) := by
  unfold Action.newMap
  exact (compute _).bind fun ref => (setCell ..).bind fun _ => .pure _

theorem editArray (v : Value) (edit : List Value → List Value × α) : Proceeds (editArray v edit) := by
  unfold Action.editArray
  split
  · exact store.bind fun _ => (setCell ..).bind fun _ => .pure _
  · split <;> exact .throw _

theorem editMap (v : Value) (edit : List (String × Value) → List (String × Value) × α) :
    Proceeds (editMap v edit) := by
  unfold Action.editMap
  split
  · exact store.bind fun _ => (setCell ..).bind fun _ => .pure _
  · split <;> exact .throw _

end Proceeds

/-- What can be done to a world from outside. -/
inductive IsOpen : {α : Type} → Action α → Prop
  | newRoot (viewport : Viewport) (agent : Agent) : IsOpen (newRoot viewport agent)
  | newChild (parent : ScopeId) : IsOpen (newChild parent)
  | release (scope : ScopeId) : IsOpen (release scope)
  | put (scope : ScopeId) (name : String) (kind : BindingKind) (value : Value) :
      IsOpen (put scope name kind value)
  | putResource (scope : ScopeId) (name : String) (value : Value) :
      IsOpen (putResource scope name value)
  | userWrite (scope : ScopeId) (name : String) (value : Value) : IsOpen (userWrite scope name value)
  | systemWrite (scope : ScopeId) (name : String) (value : Value) :
      IsOpen (systemWrite scope name value)
  | newArray (items : List Value) : IsOpen (newArray items)
  | newMap (entries : List (String × Value)) : IsOpen (newMap entries)
  | editArray {α : Type} (v : Value) (edit : List Value → List Value × α) : IsOpen (editArray v edit)
  | editMap {α : Type} (v : Value) (edit : List (String × Value) → List (String × Value) × α) :
      IsOpen (editMap v edit)
  | compute {α : Type} (computation : Store → Run α) : IsOpen (compute computation)
  | watch (scope : ScopeId) (source : String) : IsOpen (watch scope source)
  | watchExpression (expression : Value) : IsOpen (watchExpression expression)
  | register (scope : ScopeId) (name : String) (id : WatchId) : IsOpen (register scope name id)
  | recalculate (id : WatchId) : IsOpen (recalculate id)
  | unwatch (id : WatchId) : IsOpen (unwatch id)

theorem IsOpen.proceeds {α : Type} {action : Action α} (h : IsOpen action) : Proceeds action := by
  cases h with
  | newRoot => exact .newRoot ..
  | newChild => exact .newChild ..
  | release => exact .modifyStore fun _ => rfl
  | put | putResource => exact .put ..
  | userWrite | systemWrite => exact .writeIf ..
  | newArray => exact .newArray ..
  | newMap => exact .newMap ..
  | editArray => exact .editArray ..
  | editMap => exact .editMap ..
  | compute => exact .compute _
  | watch => exact .watch ..
  | watchExpression => exact .watchExpression ..
  | register => exact .register ..
  | recalculate => exact .recalculate _
  | unwatch => exact .unwatch _

end Action

/-- The worlds that there can be. -/
inductive World.Reachable : World → Prop
  | initial (seed : UInt64) : Reachable (World.initial seed)
  | step {world : World} {α : Type} {action : Action α} :
      Reachable world → action.IsOpen → Reachable (action.run world).2

theorem World.Reachable.rooted {world : World} (h : world.Reachable) : world.Rooted := by
  induction h with
  | initial seed => exact ⟨rfl, (fun _ htable => nomatch htable), fun hfound => nomatch hfound⟩
  | step _ hopen ih => exact (hopen.proceeds.continues _).rooted ih

end LiveTemplate
