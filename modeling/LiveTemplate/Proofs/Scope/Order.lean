import LiveTemplate.Proofs.Scope.Binding
import LiveTemplate.Proofs.Value.Plain
/-!
# Scopes in order

As long as no scope is let go, a symbol finds what its scope itself binds to its name: the scope
lives, and it comes first in its own lineage.  Whatever other scopes bind to the name, now or
later, makes no difference.

`Orderly` has what is needed for that, and that only plain values are bound.  Adding scopes and
binding plain values keeps a store in order.
-/

set_option autoImplicit false

namespace LiveTemplate.Store

open Value

/-- What a symbol finds. -/
def seen (store : Store) (id : ScopeId) (name : String) : Value :=
  if store.isLive id then store.get id name else .null

/-- No scope was let go, and all that is bound is plain. -/
structure Orderly (store : Store) : Prop where
  held : ∀ {id : ScopeId} {scope : Scope}, store.scope? id = some scope → id ∈ store.held
  first : ∀ {id : ScopeId} {scope : Scope}, store.scope? id = some scope →
    ∃ rest, scope.lineage = id :: rest
  plain : ∀ {id : ScopeId} {name : String} {binding : Binding},
    store.ownBinding? id name = some binding → Plain store binding.value

variable {store : Store} {id : ScopeId} {name : String} {binding : Binding}

theorem scope?_of_ownBinding? (h : store.ownBinding? id name = some binding) :
    ∃ scope, store.scope? id = some scope ∧ Json.lookup? name scope.bindings = some binding := by
  unfold ownBinding? at h
  cases hs : store.scope? id with
  | none =>
    rw [hs] at h
    cases h
  | some scope =>
    rw [hs] at h
    exact ⟨scope, rfl, h⟩

theorem lt_of_ownBinding? (h : store.ownBinding? id name = some binding) :
    id < store.scopes.length := by
  obtain ⟨scope, hs, -⟩ := scope?_of_ownBinding? h
  exact (List.getElem?_eq_some_iff.mp hs).1

theorem ownBinding?_of_owned? {scope : ScopeId} (h : store.owned? scope name = some (id, binding)) :
    store.ownBinding? id name = some binding := by
  obtain ⟨ancestor, -, hfound⟩ := List.exists_of_findSome?_eq_some h
  obtain ⟨found, hown, heq⟩ := Option.map_eq_some_iff.mp hfound
  obtain ⟨rfl, rfl⟩ := Prod.mk.inj heq
  exact hown

/-- What is seen from a scope is bound in some scope. -/
theorem mem_of_binding? {scope : ScopeId} (h : store.binding? scope name = some binding) :
    ∃ owner ∈ store.scopes, ∃ entry ∈ owner.bindings, entry.2 = binding := by
  obtain ⟨⟨id, found⟩, howned, rfl⟩ := Option.map_eq_some_iff.mp h
  obtain ⟨owner, hscope, hlookup⟩ := scope?_of_ownBinding? (ownBinding?_of_owned? howned)
  exact ⟨owner, List.mem_of_getElem? hscope, Json.lookup_mem hlookup⟩

/-- **A symbol finds what its scope binds.** -/
theorem Orderly.seen_own (h : store.Orderly) (hown : store.ownBinding? id name = some binding) :
    store.seen id name = binding.value := by
  obtain ⟨scope, hs, -⟩ := scope?_of_ownBinding? hown
  obtain ⟨rest, hlineage⟩ := h.first hs
  have hself : store.lineage id = id :: rest := by simp [lineage, hs, hlineage]
  have hlive : store.isLive id = true := isLive_of_held (h.held hs) (by simp [hself])
  have howned : store.owned? id name = some (id, binding) := by
    simp [owned?, hself, hown]
  simp [seen, hlive, get_of_owned? howned]

theorem Orderly.plain_seen (h : store.Orderly) (hown : store.ownBinding? id name = some binding) :
    Plain store (store.seen id name) := by
  rw [h.seen_own hown]
  exact h.plain hown

/-! ## Binding a name -/

/-- What is bound then is what was bound now, or was bound before. -/
theorem ownBinding?_of_bind {other : ScopeId} {name' : String} {found : Binding}
    (hown : (store.bind id name binding).ownBinding? other name' = some found) :
    found = binding ∨ store.ownBinding? other name' = some found := by
  by_cases hsame : other = id ∧ name' = name
  · obtain ⟨rfl, rfl⟩ := hsame
    obtain ⟨scope, hs, -⟩ := scope?_of_ownBinding? hown
    rw [scope?_bind] at hs
    obtain ⟨old, hold, -⟩ := Option.map_eq_some_iff.mp hs
    rw [ownBinding?_bind_self store _ _ _ hold] at hown
    exact .inl (Option.some.inj hown).symm
  · rw [ownBinding?_bind_other store binding (not_and_or.mp hsame)] at hown
    exact .inr hown

theorem Orderly.bind (h : store.Orderly) (id : ScopeId) (name : String)
    (hplain : Plain store binding.value) : (store.bind id name binding).Orderly := by
  have hscope : ∀ {other : ScopeId} {scope : Scope},
      (store.bind id name binding).scope? other = some scope →
        ∃ old, store.scope? other = some old ∧ scope.lineage = old.lineage := by
    intro other scope hs
    rw [scope?_bind] at hs
    obtain ⟨old, hold, rfl⟩ := Option.map_eq_some_iff.mp hs
    refine ⟨old, hold, ?_⟩
    split <;> rfl
  constructor
  · intro other scope hs
    obtain ⟨old, hold, -⟩ := hscope hs
    exact h.held hold
  · intro other scope hs
    obtain ⟨old, hold, hlineage⟩ := hscope hs
    rw [hlineage]
    exact h.first hold
  · intro other name' found hown
    refine Plain.congr (cells_bind store id name binding).symm ?_
    rcases ownBinding?_of_bind hown with rfl | hown
    · exact hplain
    · exact h.plain hown

/-! ## Adding a scope -/

/-- The store with one more scope, which is held and binds nothing. -/
def grown (store : Store) (ancestors : List ScopeId) (viewport : Viewport) (agent : Agent) : Store :=
  { store with
    scopes := store.scopes ++ [⟨store.scopes.length :: ancestors, [], viewport, agent⟩]
    held := store.scopes.length :: store.held }

variable (ancestors : List ScopeId) (viewport : Viewport) (agent : Agent)

theorem scope?_grown (id : ScopeId) :
    (store.grown ancestors viewport agent).scope? id =
      if id = store.scopes.length then
        some ⟨store.scopes.length :: ancestors, [], viewport, agent⟩
      else store.scope? id := by
  unfold scope? grown
  by_cases hid : id = store.scopes.length
  · simp [hid]
  · rw [if_neg hid]
    by_cases hlt : id < store.scopes.length
    · exact List.getElem?_append_left hlt
    · have hgt : store.scopes.length < id := Nat.lt_of_le_of_ne (Nat.le_of_not_lt hlt) (Ne.symm hid)
      rw [List.getElem?_eq_none (Nat.le_of_not_lt hlt), List.getElem?_eq_none]
      rw [List.length_append]
      exact hgt

@[simp]
theorem ownBinding?_grown (id : ScopeId) (name : String) :
    (store.grown ancestors viewport agent).ownBinding? id name = store.ownBinding? id name := by
  unfold ownBinding?
  rw [scope?_grown]
  by_cases hid : id = store.scopes.length
  · have hnone : store.scope? id = none := List.getElem?_eq_none (Nat.le_of_eq hid.symm)
    simp [hid, hid ▸ hnone, Json.lookup?]
  · rw [if_neg hid]

theorem Orderly.grown (h : store.Orderly) : (store.grown ancestors viewport agent).Orderly := by
  constructor
  · intro id scope hs
    rw [scope?_grown] at hs
    by_cases hid : id = store.scopes.length
    · exact hid ▸ List.mem_cons_self
    · rw [if_neg hid] at hs
      exact List.mem_cons_of_mem _ (h.held hs)
  · intro id scope hs
    rw [scope?_grown] at hs
    by_cases hid : id = store.scopes.length
    · rw [if_pos hid] at hs
      obtain rfl := Option.some.inj hs
      exact ⟨ancestors, by rw [hid]⟩
    · rw [if_neg hid] at hs
      exact h.first hs
  · intro id name binding hown
    rw [ownBinding?_grown] at hown
    have hcells : store.cells = (store.grown ancestors viewport agent).cells := rfl
    exact (h.plain hown).congr hcells

end LiveTemplate.Store
