import LiveTemplate.Proofs.Scope.Order
import LiveTemplate.Proofs.Scope.Walk
import LiveTemplate.Proofs.Watch.Freshness
import LiveTemplate.Proofs.Watch.Repetition
/-!
# What a write leaves alone

A write goes to the nearest scope that binds the name, and changes what this scope binds to it, if the
writer may.  Nobody comes to own a name in this way, no kind changes, and nothing else that is bound
does.  So a scope sees the change of the name if it sees the binding of the same owner, and otherwise
it sees what it saw.

Only the watches are recalculated that are listed there.  A write that is refused does nothing at all,
whatever may be bound to the name further up.
-/

set_option autoImplicit false

namespace LiveTemplate

open Run (run_bind)

/-- Who writes. -/
inductive Writer where
  | user
  | system
deriving Repr, DecidableEq

namespace Writer

/-- May the writer change bindings of the kind? -/
def mayWrite : Writer → BindingKind → Bool
  | .user, kind => kind == .user
  | .system, kind => kind != .constant

/-- Write as one or the other. -/
def write : Writer → ScopeId → String → Value → Action Bool
  | .user => Action.userWrite
  | .system => Action.systemWrite

theorem write_eq (writer : Writer) (scope : ScopeId) (name : String) (value : Value) :
    writer.write scope name value = Action.writeIf writer.mayWrite scope name value := by
  cases writer <;> rfl

end Writer

namespace Store

variable {store : Store} {owner : ScopeId} {name : String} {binding : Binding}

/-- After a binding has got another value every name has the owner that it had, and is bound as it
was, but for the one value. -/
theorem owned?_rebind (h : store.ownBinding? owner name = some binding) (value : Value)
    (scope : ScopeId) (n : String) :
    (store.bind owner name ⟨value, binding.kind⟩).owned? scope n = (store.owned? scope n).map
      fun found => (found.1, if found.1 = owner ∧ n = name then ⟨value, binding.kind⟩ else found.2) := by
  unfold owned?
  rw [lineage_bind, List.map_findSome?]
  refine congrArg (List.findSome? · _) (funext fun ancestor => ?_)
  by_cases hsame : ancestor = owner ∧ n = name
  · obtain ⟨rfl, rfl⟩ := hsame
    obtain ⟨found, hscope, -⟩ := scope?_of_ownBinding? h
    simp [ownBinding?_bind_self store ancestor n _ hscope, h]
  · rw [ownBinding?_bind_other store _ (not_and_or.mp hsame)]
    cases hown : store.ownBinding? ancestor n <;> simp [hown, hsame]

/-- What is seen is what the owner binds. -/
theorem get?_of_owner {scope : ScopeId} (h : (store.owned? scope name).map Prod.fst = some owner) :
    store.get? scope name = (store.ownBinding? owner name).map fun binding => binding.value := by
  obtain ⟨⟨found, binding⟩, howned, rfl⟩ := Option.map_eq_some_iff.mp h
  simp [get?, binding?, howned, ownBinding?_of_owned? howned]

end Store

namespace World

/-- **At most one binding differs**, and of the watches at most those that are listed there.  What the
watches were told is all that happened. -/
structure DiffersAt (world world' : World) (owner : ScopeId) (name : String) : Prop where
  /-- Nothing else is bound anew. -/
  bindings : ∀ scope n, scope ≠ owner ∨ n ≠ name →
    world'.store.ownBinding? scope n = world.store.ownBinding? scope n
  /-- Every name has the owner that it had. -/
  owners : ∀ scope n, (world'.store.owned? scope n).map Prod.fst =
    (world.store.owned? scope n).map Prod.fst
  /-- No kind changes. -/
  kinds : ∀ scope n, world'.store.kind? scope n = world.store.kind? scope n
  /-- A scope sees another value at most of this name, and only if it sees this owner's. -/
  values : ∀ scope n, world'.store.get scope n ≠ world.store.get scope n →
    n = name ∧ ∃ binding, world.store.Nearest scope name owner binding
  cells : world'.store.cells = world.store.cells
  /-- Who is not listed there is as it was. -/
  watches : ∀ id ∉ (world.table owner).live world.isLive name,
    world'.watches[id]? = world.watches[id]?

end World

namespace Action

open World

variable {world world' : World} {scope owner : ScopeId} {name : String} {value : Value}
  {binding : Binding}

/-- Recalculating watches does not touch the others. -/
theorem watches_recalculateAll {ids : List WatchId} {result : Except Fault Unit}
    (h : (recalculateAll ids).run world = (result, world')) {id : WatchId} (hid : id ∉ ids) :
    world'.watches[id]? = world.watches[id]? := by
  induction ids generalizing world with
  | nil =>
    obtain ⟨-, rfl⟩ := Prod.mk.inj h
    rfl
  | cons first rest ih =>
    have hfirst : id ∉ [first] := fun hmem => hid (List.mem_singleton.mp hmem ▸ List.mem_cons_self)
    unfold recalculateAll at h
    rw [run_bind] at h
    rcases hr : (recalculate first).run world with ⟨x | changed, middle⟩ <;> rw [hr] at h
    · obtain ⟨-, rfl⟩ := Prod.mk.inj h
      exact (recalculate_recalculated hr).others id hfirst
    · have hrest := ih h fun hmem => hid (List.mem_cons_of_mem _ hmem)
      exact hrest.trans ((recalculate_recalculated hr).others id hfirst)

theorem differsAt_refl (world : World) (owner : ScopeId) (name : String) :
    world.DiffersAt world owner name :=
  ⟨fun _ _ _ => rfl, fun _ _ => rfl, fun _ _ => rfl, fun _ _ hne => absurd rfl hne, rfl,
    fun _ _ => rfl⟩

/-- Storing a value and telling the watches makes no other difference. -/
theorem differsAt_written (hown : world.store.ownBinding? owner name = some binding)
    {outcome : Except Fault Unit}
    (h : (recalculateAll ((world.table owner).live world.isLive name)).run
      (written world owner name ⟨value, binding.kind⟩) = (outcome, world')) :
    world.DiffersAt world' owner name := by
  have hstore : world'.store = world.store.bind owner name ⟨value, binding.kind⟩ :=
    (recalculateAll_sameWatches h).store
  have howned := Store.owned?_rebind hown value
  refine ⟨?_, ?_, ?_, ?_, ?_, fun id hid => watches_recalculateAll h hid⟩
  · intro s n hother
    rw [hstore, Store.ownBinding?_bind_other _ _ hother]
  · intro s n
    rw [hstore, howned, Option.map_map]
    rfl
  · intro s n
    unfold Store.kind? Store.binding?
    rw [hstore, howned]
    cases hfound : world.store.owned? s n with
    | none => rfl
    | some found =>
      by_cases hsame : found.1 = owner ∧ n = name
      · have hown' := Store.ownBinding?_of_owned? hfound
        rw [hsame.1, hsame.2, hown] at hown'
        simp [hsame, Option.some.inj hown']
      · simp [hsame]
  · intro s n hne
    unfold Store.get Store.get? Store.binding? at hne
    rw [hstore, howned] at hne
    cases hfound : world.store.owned? s n with
    | none => simp [hfound] at hne
    | some found =>
      by_cases hsame : found.1 = owner ∧ n = name
      · obtain ⟨rfl, rfl⟩ := hsame
        exact ⟨rfl, found.2, Store.owned_iff_nearest.mp hfound⟩
      · simp [hfound, hsame] at hne
  · rw [hstore]
    rfl

/-- **A write touches one binding, or none.**  Whatever scopes there are and whatever they bind: a write
is refused, and leaves everything as it is, if nothing in the lineage binds the name or if the nearest
binding is of a kind that the writer may not change.  Otherwise it is not refused.  Then at most the
nearest binding differs after it, or nothing at all does; and whoever sees the binding of the same owner
sees the same value. -/
theorem write_frame (writer : Writer) {result : Except Fault Bool}
    (h : (writer.write scope name value).run world = (result, world')) :
    (result = .ok false ∧ world' = world ∧ (world.store.Unbound scope name ∨
      ∃ owner binding, world.store.Nearest scope name owner binding ∧
        writer.mayWrite binding.kind = false)) ∨
    ∃ owner binding, world.store.Nearest scope name owner binding ∧
      writer.mayWrite binding.kind = true ∧ result ≠ .ok false ∧
      world.DiffersAt world' owner name ∧
      (∀ other found, world.store.Nearest other name owner found →
        world'.store.get other name = world'.store.get scope name) ∧
      (world' = world ∨ ∃ outcome,
        (recalculateAll ((world.table owner).live world.isLive name)).run
          (written world owner name ⟨value, binding.kind⟩) = (outcome, world')) := by
  rw [Writer.write_eq] at h
  rcases writeIf_ends h with ⟨hnone, rfl, rfl⟩ | ⟨owner, binding, howned, hends⟩
  · exact .inl ⟨rfl, rfl, .inl (Store.owned_none_iff.mp hnone)⟩
  have hnearest := Store.owned_iff_nearest.mp howned
  have hsees : world.DiffersAt world' owner name → ∀ other found,
      world.store.Nearest other name owner found →
      world'.store.get other name = world'.store.get scope name := by
    intro hdiffers other found hother
    have howner : ∀ s bound, world.store.owned? s name = some (owner, bound) →
        (world'.store.owned? s name).map Prod.fst = some owner := by
      intro s bound hs
      rw [hdiffers.owners, hs]
      rfl
    unfold Store.get
    rw [Store.get?_of_owner (howner other found (Store.owned_iff_nearest.mpr hother)),
      Store.get?_of_owner (howner scope binding howned)]
  rcases hends with ⟨hmay, rfl, rfl⟩ | ⟨hmay, -, rfl, rfl⟩ | ⟨hmay, -, outcome, hrun, rfl⟩
  · exact .inl ⟨rfl, rfl, .inr ⟨owner, binding, hnearest, hmay⟩⟩
  · have hdiffers := differsAt_refl world' owner name
    exact .inr ⟨owner, binding, hnearest, hmay, nofun, hdiffers, hsees hdiffers, .inl rfl⟩
  · have hdiffers := differsAt_written (Store.ownBinding?_of_owned? howned) hrun
    refine .inr ⟨owner, binding, hnearest, hmay, ?_, hdiffers, hsees hdiffers, .inr ⟨outcome, hrun⟩⟩
    cases outcome <;> nofun

/-- A name that is for the user in the root, and for the system in a child. -/
def guardedChild : World :=
  ((put 1 "x" .system (.text "b")).run
    ((newChild 0).run ((put 0 "x" .user (.text "a")).run onlyRoot).2).2).2

/-- The user is refused in the child, although the root would allow it, and served in the root, where
the child sees nothing of it. -/
theorem write_frame_guarded :
    (userWrite 1 "x" (.text "c")).run guardedChild = (.ok false, guardedChild) ∧
    ∃ world', (userWrite 0 "x" (.text "c")).run guardedChild = (.ok true, world') ∧
      guardedChild.DiffersAt world' 0 "x" := by
  have hrefused : ((userWrite 1 "x" (.text "c")).run guardedChild).1.toOption = some false := by
    decide +kernel
  have hserved : ((userWrite 0 "x" (.text "c")).run guardedChild).1.toOption = some true := by
    decide +kernel
  have howned : ((guardedChild.store.owned? 0 "x").any fun found => found.1 == 0) = true := by
    decide +kernel
  generalize guardedChild = world at hrefused hserved howned
  constructor
  · rcases hrun : (userWrite 1 "x" (.text "c")).run world with ⟨_ | done, world'⟩ <;>
      rw [hrun] at hrefused <;> cases hrefused
    rcases write_frame .user hrun with ⟨-, rfl, -⟩ | ⟨_, _, -, -, hdone, -⟩
    · rfl
    · exact absurd rfl hdone
  · rcases hrun : (userWrite 0 "x" (.text "c")).run world with ⟨_ | done, world'⟩ <;>
      rw [hrun] at hserved <;> cases hserved
    rcases write_frame .user hrun with ⟨hno, -⟩ | ⟨owner, binding, hnearest, -, -, hdiffers, -⟩
    · cases hno
    · rw [Store.owned_iff_nearest.mpr hnearest] at howned
      obtain rfl : owner = 0 := eq_of_beq howned
      exact ⟨world', rfl, hdiffers⟩

end Action

end LiveTemplate
