import LiveTemplate.Proofs.Json.Fields
import LiveTemplate.Scope.Basic
/-!
# What binding a name changes

Binding a name in a scope changes what this scope itself binds to this name, and nothing else: not
what it binds to other names, not what other scopes bind, no lineage, and neither which scopes are
held nor what editable containers hold.

What a scope sees of a name is what the owner of the name binds to it, and nothing if there is no owner.
-/

set_option autoImplicit false

namespace LiveTemplate.Store

variable (store : Store) (id : ScopeId) (name : String) (binding : Binding)

theorem scope?_bind (other : ScopeId) :
    (store.bind id name binding).scope? other = (store.scope? other).map fun scope =>
      if id = other then
        { scope with bindings := Json.insertField name binding scope.bindings }
      else scope := by
  simp only [scope?, bind, List.getElem?_modify]
  by_cases h : id = other <;> simp [h]

@[simp]
theorem lineage_bind (other : ScopeId) :
    (store.bind id name binding).lineage other = store.lineage other := by
  unfold lineage
  rw [scope?_bind]
  cases store.scope? other with
  | none => rfl
  | some scope => by_cases h : id = other <;> simp [h]

@[simp]
theorem viewport_bind (other : ScopeId) :
    (store.bind id name binding).viewport other = store.viewport other := by
  unfold viewport
  rw [scope?_bind]
  cases store.scope? other with
  | none => rfl
  | some scope => by_cases h : id = other <;> simp [h]

@[simp]
theorem cells_bind : (store.bind id name binding).cells = store.cells := rfl

@[simp]
theorem held_bind : (store.bind id name binding).held = store.held := rfl

theorem ownBinding?_bind_self {scope : Scope} (h : store.scope? id = some scope) :
    (store.bind id name binding).ownBinding? id name = some binding := by
  simp [ownBinding?, scope?_bind, h, Json.lookup_insertField_self]

variable {id name}

theorem ownBinding?_bind_other {other : ScopeId} {name' : String} (h : other ≠ id ∨ name' ≠ name) :
    (store.bind id name binding).ownBinding? other name' = store.ownBinding? other name' := by
  unfold ownBinding?
  rw [scope?_bind]
  cases store.scope? other with
  | none => rfl
  | some scope =>
    by_cases hid : id = other
    · have hname : name' ≠ name := h.resolve_left fun hne => hne hid.symm
      simp [hid, Json.lookup_insertField_other hname]
    · simp [hid]

/-- A scope that is held lives. -/
theorem isLive_of_held {store : Store} {id : ScopeId} (h : id ∈ store.held)
    (hid : id ∈ store.lineage id) : store.isLive id = true := by
  simp only [isLive, List.any_eq_true, List.contains_iff_mem]
  exact ⟨id, h, hid⟩

/-! ## What is seen of a name -/

section

variable {store : Store} {id owner : ScopeId} {name : String} {binding : Binding}

theorem binding?_of_owned? (h : store.owned? id name = some (owner, binding)) :
    store.binding? id name = some binding := by simp [binding?, h]

theorem get_of_owned? (h : store.owned? id name = some (owner, binding)) :
    store.get id name = binding.value := by simp [get, get?, binding?_of_owned? h]

theorem get_of_not_owned? (h : store.owned? id name = none) : store.get id name = .null := by
  simp [get, get?, binding?, h]

end

end LiveTemplate.Store
