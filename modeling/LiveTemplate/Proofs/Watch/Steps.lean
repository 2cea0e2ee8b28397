import LiveTemplate.Proofs.Watch.Course
import LiveTemplate.Proofs.Watch.Frame
import Mathlib.Logic.Relation
/-!
# What becomes of scopes and bindings

Of all that can be done to a world from outside, little changes its scopes.  A scope may be added, and
a name may be bound in a scope, or written where it is owned.  Everything else leaves the scopes as they
are.

So a lineage is what it was when its scope was made, and a name that is bound in a scope stays bound
there.  It stays bound to the same value until somebody binds or writes this name in this scope.
-/

set_option autoImplicit false

namespace LiveTemplate

open Value
open Run (Ends run_bind run_pure)

/-! ## Stores with the same scopes -/

namespace Store

variable {store store' : Store} {id : ScopeId} {name : String}

theorem scope?_congr (h : store'.scopes = store.scopes) (id : ScopeId) :
    store'.scope? id = store.scope? id := by rw [scope?, scope?, h]

theorem lineage_congr (h : store'.scopes = store.scopes) (id : ScopeId) :
    store'.lineage id = store.lineage id := by rw [lineage, lineage, scope?_congr h]

theorem ownBinding?_congr (h : store'.scopes = store.scopes) (id : ScopeId) (name : String) :
    store'.ownBinding? id name = store.ownBinding? id name := by
  rw [ownBinding?, ownBinding?, scope?_congr h]

/-- Bind constants in a scope. -/
def bindAll (store : Store) (id : ScopeId) : List (String × Value) → Store
  | [] => store
  | (name, value) :: rest => (store.bind id name ⟨value, .constant⟩).bindAll id rest

theorem lineage_bindAll (bindings : List (String × Value)) (other : ScopeId) :
    (store.bindAll id bindings).lineage other = store.lineage other := by
  induction bindings generalizing store with
  | nil => rfl
  | cons entry rest ih => exact ih.trans (lineage_bind ..)

theorem length_bindAll (bindings : List (String × Value)) :
    (store.bindAll id bindings).scopes.length = store.scopes.length := by
  induction bindings generalizing store with
  | nil => rfl
  | cons entry rest ih => exact ih.trans (List.length_modify ..)

theorem ownBinding?_bindAll (bindings : List (String × Value)) {other : ScopeId} (h : other ≠ id)
    (name : String) :
    (store.bindAll id bindings).ownBinding? other name = store.ownBinding? other name := by
  induction bindings generalizing store with
  | nil => rfl
  | cons entry rest ih => exact ih.trans (ownBinding?_bind_other _ _ (.inl h))

end Store

/-! ## One step -/

/-- What an action has to do with bindings. -/
inductive Deed where
  | binds (scope : ScopeId) (name : String)
  | writes (scope : ScopeId) (name : String)
  | other

/-- The name is bound in the scope, or it is written and the scope owns it. -/
def Deed.Reaches (world : World) (owner : ScopeId) (name : String) : Deed → Prop
  | .binds scope n => scope = owner ∧ n = name
  | .writes scope n => n = name ∧ ∃ binding, world.store.owned? scope n = some (owner, binding)
  | .other => False

namespace Action

variable {α : Type} {action : Action α} {deed : Deed} {world : World} {owner scope : ScopeId}
  {name : String}

/-- What can be done to a world from outside, and which of it binds or writes a name. -/
inductive Does : {α : Type} → Action α → Deed → Prop
  | put (scope : ScopeId) (name : String) (kind : BindingKind) (value : Value) :
      Does (put scope name kind value) (.binds scope name)
  | putResource (scope : ScopeId) (name : String) (value : Value) :
      Does (putResource scope name value) (.binds scope ("@" ++ name))
  | userWrite (scope : ScopeId) (name : String) (value : Value) :
      Does (userWrite scope name value) (.writes scope name)
  | systemWrite (scope : ScopeId) (name : String) (value : Value) :
      Does (systemWrite scope name value) (.writes scope name)
  | newRoot (viewport : Viewport) (agent : Agent) : Does (newRoot viewport agent) .other
  | newChild (parent : ScopeId) : Does (newChild parent) .other
  | release (scope : ScopeId) : Does (release scope) .other
  | newArray (items : List Value) : Does (newArray items) .other
  | newMap (entries : List (String × Value)) : Does (newMap entries) .other
  | editArray {α : Type} (v : Value) (edit : List Value → List Value × α) :
      Does (editArray v edit) .other
  | editMap {α : Type} (v : Value)
      (edit : List (String × Value) → List (String × Value) × α) : Does (editMap v edit) .other
  | compute {α : Type} (computation : Store → Run α) : Does (compute computation) .other
  | watch (scope : ScopeId) (source : String) : Does (watch scope source) .other
  | watchExpression (expression : Value) : Does (watchExpression expression) .other
  | register (scope : ScopeId) (name : String) (id : WatchId) : Does (register scope name id) .other
  | recalculate (id : WatchId) : Does (recalculate id) .other
  | unwatch (id : WatchId) : Does (unwatch id) .other

theorem IsOpen.does (h : IsOpen action) : ∃ deed, Does action deed := by
  cases h with
  | put => exact ⟨_, .put ..⟩
  | putResource => exact ⟨_, .putResource ..⟩
  | userWrite => exact ⟨_, .userWrite ..⟩
  | systemWrite => exact ⟨_, .systemWrite ..⟩
  | newRoot => exact ⟨_, .newRoot ..⟩
  | newChild => exact ⟨_, .newChild ..⟩
  | release => exact ⟨_, .release ..⟩
  | newArray => exact ⟨_, .newArray ..⟩
  | newMap => exact ⟨_, .newMap ..⟩
  | editArray => exact ⟨_, .editArray ..⟩
  | editMap => exact ⟨_, .editMap ..⟩
  | compute => exact ⟨_, .compute ..⟩
  | watch => exact ⟨_, .watch ..⟩
  | watchExpression => exact ⟨_, .watchExpression ..⟩
  | register => exact ⟨_, .register ..⟩
  | recalculate => exact ⟨_, .recalculate ..⟩
  | unwatch => exact ⟨_, .unwatch ..⟩

/-- What a step does to the scopes of a store, if it may bind certain names in certain scopes. -/
inductive ScopeStep (store : Store) (reaches : ScopeId → String → Prop) (scopes : List Scope) : Prop
  /-- It leaves them. -/
  | same : scopes = store.scopes → ScopeStep store reaches scopes
  /-- It binds a name. -/
  | bound (owner : ScopeId) (name : String) (binding : Binding) : reaches owner name →
      scopes = (store.bind owner name binding).scopes → ScopeStep store reaches scopes
  /-- It adds a root with all that it binds, or a child. -/
  | added (ancestors : List ScopeId) (viewport : Viewport) (agent : Agent)
      (bindings : List (String × Value)) :
      ancestors = [] ∨ (∃ parent, ancestors = store.lineage parent) →
      scopes = ((store.grown ancestors viewport agent).bindAll store.scopes.length bindings).scopes →
      ScopeStep store reaches scopes

theorem run_putAll (id : ScopeId) (bindings : List (String × Value)) (world : World) :
    (putAll id bindings).run world = (.ok (), { world with store := world.store.bindAll id bindings }) := by
  induction bindings generalizing world with
  | nil => rfl
  | cons entry rest ih =>
    unfold putAll
    rw [run_bind, run_put]
    exact ih _

theorem writeIf_scopeStep {mayWrite : BindingKind → Bool} {value : Value} :
    ScopeStep world.store (fun owner n => (Deed.writes scope name).Reaches world owner n)
      ((writeIf mayWrite scope name value).run world).2.store.scopes := by
  rcases hr : (writeIf mayWrite scope name value).run world with ⟨result, world'⟩
  rcases writeIf_cases hr with ⟨rfl, -⟩ | ⟨owner, binding, -, howned, -, outcome, hrun, -⟩
  · exact .same rfl
  · refine .bound owner name ⟨value, binding.kind⟩ ⟨rfl, binding, howned⟩ ?_
    exact congrArg Store.scopes (recalculateAll_sameWatches hrun).store

/-- A root scope is added, and binds what a root scope starts with. -/
theorem run_newRoot (viewport : Viewport) (agent : Agent) (world : World) : ∃ bindings e,
    (Library.rootBindings viewport agent).run world.effects = (.ok bindings, e) ∧
    (newRoot viewport agent).run world = (.ok world.store.scopes.length,
      { extended world [] viewport agent with
        effects := e
        store := (extended world [] viewport agent).store.bindAll world.store.scopes.length bindings }) := by
  have hadd : (addScope fun store => store.addRoot viewport agent).run world =
      (.ok world.store.scopes.length, extended world [] viewport agent) := rfl
  have hplain : Ends (fun bindings => ∀ entry ∈ bindings, Plain world.store entry.2) Run.Never
      (Library.rootBindings viewport agent) := @Library.rootBindings_plain world.store viewport agent
  rcases hr : (Library.rootBindings viewport agent).run world.effects with ⟨x | bindings, e⟩
  · exact (hplain.fault hr).elim
  · have hr' : (Library.rootBindings viewport agent).run (extended world [] viewport agent).effects =
        (.ok bindings, e) := hr
    refine ⟨bindings, e, rfl, ?_⟩
    unfold newRoot
    simp only [run_bind, hadd, run_compute, hr', run_putAll, run_pure]

theorem newRoot_scopeStep (viewport : Viewport) (agent : Agent) {reaches : ScopeId → String → Prop} :
    ScopeStep world.store reaches ((newRoot viewport agent).run world).2.store.scopes := by
  obtain ⟨bindings, e, -, hrun⟩ := run_newRoot viewport agent world
  rw [hrun]
  exact .added [] viewport agent bindings (.inl rfl) rfl

theorem watch_scopes (scope : ScopeId) (source : String) :
    ((watch scope source).run world).2.store.scopes = world.store.scopes := by
  rcases hr : (watch scope source).run world with ⟨result, world'⟩
  rcases watch_ends hr with ⟨⟨e, rfl⟩, -⟩ | ⟨expression, v, e, e', -, -, -, rfl⟩
  · rfl
  · exact congrArg Store.scopes store_watched

theorem watchExpression_scopes (expression : Value) :
    ((watchExpression expression).run world).2.store.scopes = world.store.scopes := by
  rcases hr : (expression.eval world.store).run world.effects with ⟨x | v, e⟩
  · rw [run_watchExpression_fault world hr]
  · rw [run_watchExpression_ok world hr]

theorem editArray_scopes (v : Value) (edit : List Value → List Value × α) :
    ((editArray v edit).run world).2.store.scopes = world.store.scopes := by
  unfold editArray
  split
  · rfl
  · split <;> rfl

theorem editMap_scopes (v : Value) (edit : List (String × Value) → List (String × Value) × α) :
    ((editMap v edit).run world).2.store.scopes = world.store.scopes := by
  unfold editMap
  split
  · rfl
  · split <;> rfl

/-- **What can be done to the scopes of a world.** -/
theorem Does.scopeStep (h : Does action deed) (world : World) :
    ScopeStep world.store (fun owner name => deed.Reaches world owner name)
      (action.run world).2.store.scopes := by
  cases h with
  | newRoot viewport agent => exact newRoot_scopeStep viewport agent
  | newChild parent =>
    obtain ⟨viewport, agent, hrun⟩ := run_newChild parent world
    rw [hrun]
    exact .added _ viewport agent [] (.inr ⟨parent, rfl⟩) rfl
  | put scope name kind value => exact .bound scope name ⟨value, kind⟩ ⟨rfl, rfl⟩ rfl
  | putResource scope name value =>
    exact .bound scope ("@" ++ name) ⟨value, .constant⟩ ⟨rfl, rfl⟩ rfl
  | userWrite | systemWrite => exact writeIf_scopeStep
  | editArray v edit => exact .same (editArray_scopes v edit)
  | editMap v edit => exact .same (editMap_scopes v edit)
  | watch scope source => exact .same (watch_scopes scope source)
  | watchExpression expression => exact .same (watchExpression_scopes expression)
  | recalculate id => exact .same (congrArg Store.scopes (recalculate_sameWatches rfl).store)
  | release | newArray | newMap | compute | register | unwatch => exact .same rfl

end Action

/-! ## What stays -/

namespace Store

variable {store : Store} {id ancestor owner : ScopeId} {name : String}

/-- What is above a scope of a lineage is in the lineage, too, and all scopes of lineages exist. -/
structure Chained (store : Store) : Prop where
  bounded : ∀ {id ancestor : ScopeId}, ancestor ∈ store.lineage id → ancestor < store.scopes.length
  trans : ∀ {id ancestor other : ScopeId}, ancestor ∈ store.lineage id →
    other ∈ store.lineage ancestor → other ∈ store.lineage id

/-- Whoever owns a name for a scope that lives, lives. -/
theorem Chained.isLive (h : store.Chained) (hlive : store.isLive id = true)
    (hancestor : ancestor ∈ store.lineage id) : store.isLive ancestor = true := by
  unfold Store.isLive at hlive ⊢
  obtain ⟨holder, hholder, hid⟩ := List.any_eq_true.mp hlive
  rw [List.contains_iff_mem] at hid
  refine List.any_eq_true.mpr ⟨holder, hholder, ?_⟩
  rw [List.contains_iff_mem]
  exact h.trans hid hancestor

theorem lineage_grown (ancestors : List ScopeId) (viewport : Viewport) (agent : Agent) (id : ScopeId) :
    (store.grown ancestors viewport agent).lineage id =
      if id = store.scopes.length then store.scopes.length :: ancestors else store.lineage id := by
  unfold lineage
  rw [scope?_grown]
  by_cases hid : id = store.scopes.length
  · simp [hid]
  · simp [hid]

theorem Chained.grown (h : store.Chained) {ancestors : List ScopeId} (viewport : Viewport)
    (agent : Agent) (hancestors : ancestors = [] ∨ ∃ parent, ancestors = store.lineage parent) :
    (store.grown ancestors viewport agent).Chained := by
  have hold : ∀ {a}, a ∈ ancestors → a < store.scopes.length := by
    intro a ha
    rcases hancestors with rfl | ⟨parent, rfl⟩
    · cases ha
    · exact h.bounded ha
  have habove : ∀ {a b}, a ∈ ancestors → b ∈ store.lineage a → b ∈ ancestors := by
    intro a b ha hb
    rcases hancestors with rfl | ⟨parent, rfl⟩
    · cases ha
    · exact h.trans ha hb
  constructor
  · intro id a ha
    rw [lineage_grown] at ha
    show a < (store.scopes ++ [_]).length
    rw [List.length_append]
    split at ha
    · rcases List.mem_cons.mp ha with rfl | ha
      · exact Nat.lt_succ_self _
      · exact Nat.lt_succ_of_lt (hold ha)
    · exact Nat.lt_succ_of_lt (h.bounded ha)
  · intro id a b ha hb
    rw [lineage_grown] at ha hb ⊢
    split at ha
    · next hid =>
      rw [if_pos hid]
      rcases List.mem_cons.mp ha with rfl | ha
      · rwa [if_pos rfl] at hb
      · rw [if_neg (Nat.ne_of_lt (hold ha))] at hb
        exact List.mem_cons_of_mem _ (habove ha hb)
    · next hid =>
      rw [if_neg hid]
      rw [if_neg (Nat.ne_of_lt (h.bounded ha))] at hb
      exact h.trans ha hb

theorem Chained.congr {store' : Store} (h : store.Chained)
    (hlength : store'.scopes.length = store.scopes.length)
    (hlineage : ∀ id, store'.lineage id = store.lineage id) : store'.Chained where
  bounded ha := hlength ▸ h.bounded (hlineage _ ▸ ha)
  trans ha hb := hlineage _ ▸ h.trans (hlineage _ ▸ ha) (hlineage _ ▸ hb)

end Store

namespace Action.ScopeStep

variable {store store' : Store} {reaches : ScopeId → String → Prop} {owner : ScopeId} {name : String}

theorem chained (h : ScopeStep store reaches store'.scopes) (hchained : store.Chained) :
    store'.Chained := by
  cases h with
  | same h => exact hchained.congr (congrArg _ h) (Store.lineage_congr h)
  | bound owner name binding _ h =>
    refine hchained.congr (by rw [h]; exact List.length_modify ..) fun id => ?_
    rw [Store.lineage_congr h, Store.lineage_bind]
  | added ancestors viewport agent bindings hancestors h =>
    refine (hchained.grown viewport agent hancestors).congr ?_ fun id => ?_
    · rw [h, Store.length_bindAll]
    · rw [Store.lineage_congr h, Store.lineage_bindAll]

/-- **A name that is bound stays bound**, and to the same value unless it is bound anew or written. -/
theorem ownBinding? (h : ScopeStep store reaches store'.scopes) {binding : Binding}
    (hown : store.ownBinding? owner name = some binding) :
    store'.ownBinding? owner name = some binding ∨
      reaches owner name ∧ ∃ later, store'.ownBinding? owner name = some later := by
  cases h with
  | same h =>
    rw [Store.ownBinding?_congr h]
    exact .inl hown
  | bound other n bound hreaches h =>
    rw [Store.ownBinding?_congr h]
    by_cases hsame : owner = other ∧ name = n
    · obtain ⟨rfl, rfl⟩ := hsame
      obtain ⟨scope, hscope, -⟩ := Store.scope?_of_ownBinding? hown
      exact .inr ⟨hreaches, bound, Store.ownBinding?_bind_self store owner name bound hscope⟩
    · rw [Store.ownBinding?_bind_other store bound (not_and_or.mp hsame)]
      exact .inl hown
  | added ancestors viewport agent bindings _ h =>
    rw [Store.ownBinding?_congr h,
      Store.ownBinding?_bindAll _ (Nat.ne_of_lt (Store.lt_of_ownBinding? hown)),
      Store.ownBinding?_grown]
    exact .inl hown

end Action.ScopeStep

/-! ## Step after step -/

namespace World

variable {world last : World} {owner : ScopeId} {name : String} {binding : Binding}

/-- The second world comes about from the first one by whatever is done. -/
def Leads : World → World → Prop :=
  Relation.ReflTransGen fun world world' => ∃ (α : Type) (action : Action α),
    action.IsOpen ∧ world' = (action.run world).2

/-- The second world comes about from the first one, and meanwhile nobody binds the name in the scope, or
writes it there. -/
def LeadsWithout (owner : ScopeId) (name : String) : World → World → Prop :=
  Relation.ReflTransGen fun world world' => ∃ (α : Type) (action : Action α) (deed : Deed),
    action.Does deed ∧ ¬deed.Reaches world owner name ∧ world' = (action.run world).2

theorem Leads.reachable (h : world.Leads last) (hreach : world.Reachable) : last.Reachable := by
  induction h with
  | refl => exact hreach
  | tail _ hstep ih =>
    obtain ⟨_, action, hopen, rfl⟩ := hstep
    exact ih.step hopen

theorem Reachable.chained (h : world.Reachable) : world.store.Chained := by
  induction h with
  | initial seed => exact ⟨(fun ha => nomatch ha), fun ha => nomatch ha⟩
  | step _ hopen ih =>
    obtain ⟨deed, hdoes⟩ := hopen.does
    exact (hdoes.scopeStep _).chained ih

/-- A name that is bound stays bound. -/
theorem Leads.ownBinding? (h : world.Leads last)
    (hown : world.store.ownBinding? owner name = some binding) :
    ∃ later, last.store.ownBinding? owner name = some later := by
  induction h with
  | refl => exact ⟨binding, hown⟩
  | tail _ hstep ih =>
    obtain ⟨later, hlater⟩ := ih
    obtain ⟨_, action, hopen, rfl⟩ := hstep
    obtain ⟨deed, hdoes⟩ := hopen.does
    rcases (hdoes.scopeStep _).ownBinding? hlater with hkept | ⟨-, hbound⟩
    · exact ⟨later, hkept⟩
    · exact hbound

/-- A name stays bound to the same value until it is bound anew or written. -/
theorem LeadsWithout.ownBinding? (h : LeadsWithout owner name world last)
    (hown : world.store.ownBinding? owner name = some binding) :
    last.store.ownBinding? owner name = some binding := by
  induction h with
  | refl => exact hown
  | tail _ hstep ih =>
    obtain ⟨_, action, deed, hdoes, hother, rfl⟩ := hstep
    exact ((hdoes.scopeStep _).ownBinding? ih).resolve_right fun hreaches => hother hreaches.1

end World

end LiveTemplate
