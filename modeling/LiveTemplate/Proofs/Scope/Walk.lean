import LiveTemplate.Expression.Template
import LiveTemplate.Proofs.Scope.Binding
/-!
# Looking a name up

A name is looked up in several ways.  One asks what a scope sees, another where changes of the name
belong, and a third what the name stands for in an expression; each walks along the lineage by
itself.  And the list of all names that a scope sees is gathered from the whole lineage.

All of them go by the same binding: the one in the nearest scope that binds the name.
-/

set_option autoImplicit false

namespace LiveTemplate.Store

variable {store : Store} {id owner : ScopeId} {name : String} {binding : Binding}

/-! ## The nearest binder -/

/-- As seen from the first scope, the second one is the nearest that binds the name, and this is what
it binds. -/
def Nearest (store : Store) (id : ScopeId) (name : String) (owner : ScopeId) (binding : Binding) :
    Prop :=
  ∃ before after, store.lineage id = before ++ owner :: after ∧
    (∀ scope ∈ before, store.ownBinding? scope name = none) ∧
    store.ownBinding? owner name = some binding

/-- Nothing in the lineage of the scope binds the name. -/
def Unbound (store : Store) (id : ScopeId) (name : String) : Prop :=
  ∀ scope ∈ store.lineage id, store.ownBinding? scope name = none

/-- The owner is the nearest binder. -/
theorem owned_iff_nearest :
    store.owned? id name = some (owner, binding) ↔ store.Nearest id name owner binding := by
  unfold owned? Nearest
  rw [List.findSome?_eq_some_iff]
  simp only [Option.map_eq_some_iff, Option.map_eq_none_iff, Prod.mk.injEq]
  constructor
  · rintro ⟨before, _, after, hlineage, ⟨_, hown, rfl, rfl⟩, hbefore⟩
    exact ⟨before, after, hlineage, hbefore, hown⟩
  · rintro ⟨before, after, hlineage, hbefore, hown⟩
    exact ⟨before, owner, after, hlineage, ⟨binding, hown, rfl, rfl⟩, hbefore⟩

/-- Nobody owns what nobody binds. -/
theorem owned_none_iff : store.owned? id name = none ↔ store.Unbound id name := by
  simp [owned?, Unbound, List.findSome?_eq_none_iff]

/-- A scope sees its own binding first. -/
theorem nearest_bind {rest : List ScopeId} (h : store.lineage id = id :: rest) :
    (store.bind id name binding).Nearest id name id binding := by
  cases hscope : store.scope? id with
  | none => simp [lineage, hscope] at h
  | some scope =>
    exact ⟨[], rest, by simpa using h, by simp, ownBinding?_bind_self store id name binding hscope⟩

/-- The walk for changes ends with the owner, or where it began. -/
theorem concerned_eq : store.concerned id name = match store.owned? id name with
    | some (owner, _) => owner
    | none => id := by
  unfold concerned owned?
  induction store.lineage id with
  | nil => rfl
  | cons ancestor rest ih =>
    simp only [firstBinder, List.findSome?_cons]
    cases store.ownBinding? ancestor name with
    | none => simpa using ih
    | some binding => rfl

/-- The walk for expressions goes by the owner. -/
theorem resolve_eq : store.resolve id name = match store.owned? id name with
    | some (owner, binding) =>
      match binding.kind with
      | .constant => pure binding.value
      | _ => do return .symbol (← Run.fresh) owner name
    | none => pure .null := by
  unfold resolve owned?
  induction store.lineage id with
  | nil => rfl
  | cons ancestor rest ih =>
    simp only [resolveAlong, List.findSome?_cons]
    cases store.ownBinding? ancestor name with
    | none => simpa using ih
    | some binding => rfl

/-! ## The list of names -/

theorem mem_insertName {n name : String} {names : List String} :
    n ∈ insertName name names ↔ n = name ∨ n ∈ names := by
  induction names with
  | nil => simp [insertName]
  | cons other rest ih =>
    unfold insertName
    by_cases heq : name = other
    · simp [heq]
    · by_cases hless : name < other
      · simp [heq, hless]
      · simp [heq, hless, ih, or_left_comm]

theorem insertName_pairwise {name : String} {names : List String} (h : names.Pairwise (· < ·)) :
    (insertName name names).Pairwise (· < ·) := by
  induction names with
  | nil => simp [insertName]
  | cons other rest ih =>
    obtain ⟨hother, hrest⟩ := List.pairwise_cons.mp h
    unfold insertName
    by_cases heq : name = other
    · simpa [heq] using h
    · by_cases hless : name < other
      · simp only [beq_iff_eq, heq, hless, if_false, if_true]
        refine List.pairwise_cons.mpr ⟨fun n hn => ?_, h⟩
        rcases List.mem_cons.mp hn with rfl | hn
        · exact hless
        · exact Std.lt_trans hless (hother n hn)
      · simp only [beq_iff_eq, heq, hless, if_false]
        refine List.pairwise_cons.mpr ⟨fun n hn => ?_, ih hrest⟩
        rcases mem_insertName.mp hn with rfl | hn
        · rcases Std.lt_trichotomy n other with hlt | hsame | hgt
          · exact absurd hlt hless
          · exact absurd hsame heq
          · exact hgt
        · exact hother n hn

/-- Gathering the names of one scope adds the names that this scope binds. -/
theorem mem_gathered {bindings : List (String × Binding)} {names : List String} :
    name ∈ bindings.foldl (fun names binding => insertName binding.1 names) names ↔
      name ∈ names ∨ (Json.lookup? name bindings).isSome := by
  induction bindings generalizing names with
  | nil => simp [Json.lookup?]
  | cons entry rest ih =>
    obtain ⟨key, bound⟩ := entry
    rw [List.foldl_cons, ih, mem_insertName]
    by_cases hkey : key = name
    · simp [Json.lookup?, hkey]
    · simp [Json.lookup?, hkey, Ne.symm hkey]

/-- A list that is gathered step by step has what was there at first and what the steps add. -/
theorem mem_foldl_iff {α β : Type} {b : β} {gather : List β → α → List β} (adds : α → Prop)
    (h : ∀ gathered a, b ∈ gather gathered a ↔ b ∈ gathered ∨ adds a) (as : List α)
    (gathered : List β) : b ∈ as.foldl gather gathered ↔ b ∈ gathered ∨ ∃ a ∈ as, adds a := by
  induction as generalizing gathered with
  | nil => simp
  | cons a rest ih => simp [ih, h, or_assoc]

/-- A name is listed exactly if some scope of the lineage binds it. -/
theorem mem_names_iff :
    name ∈ store.names id ↔ ∃ scope ∈ store.lineage id, (store.ownBinding? scope name).isSome := by
  unfold names
  rw [mem_foldl_iff fun scope => (store.ownBinding? scope name).isSome = true]
  · simp
  · intro names ancestor
    cases hscope : store.scope? ancestor with
    | none => simp [ownBinding?, hscope]
    | some scope => simp [ownBinding?, hscope, mem_gathered]

/-! ## One answer -/

/-- Every way to look the name up from the scope answers from this binding of this owner. -/
structure Answers (store : Store) (id : ScopeId) (name : String) (owner : ScopeId)
    (binding : Binding) : Prop where
  nearest : store.Nearest id name owner binding
  has : store.has id name = true
  get : store.get? id name = some binding.value
  kind : store.kind? id name = some binding.kind
  require : store.require id name = .ok binding.value
  listed : name ∈ store.names id
  concerned : store.concerned id name = owner
  /-- A constant stands for its value. -/
  constant : binding.kind = .constant → store.resolve id name = pure binding.value
  /-- Everything else stands for a new symbol at the owner. -/
  writable : binding.kind ≠ .constant →
    store.resolve id name = Run.fresh >>= fun ref => pure (.symbol ref owner name)

/-- Every way to look the name up from the scope answers that it is not bound. -/
structure Denies (store : Store) (id : ScopeId) (name : String) : Prop where
  unbound : store.Unbound id name
  has : store.has id name = false
  get : store.get? id name = none
  kind : store.kind? id name = none
  require : store.require id name = .error ⟨name⟩
  unlisted : name ∉ store.names id
  concerned : store.concerned id name = id
  resolve : store.resolve id name = pure .null

theorem Nearest.answers (h : store.Nearest id name owner binding) :
    store.Answers id name owner binding := by
  have howned := owned_iff_nearest.mpr h
  have hbinding : store.binding? id name = some binding := binding?_of_owned? howned
  have hget : store.get? id name = some binding.value := by simp [get?, hbinding]
  refine ⟨h, ?_, hget, ?_, ?_, ?_, ?_, fun hkind => ?_, fun hkind => ?_⟩
  · simp [Store.has, hbinding]
  · simp [kind?, hbinding]
  · simp [Store.require, hget]
  · obtain ⟨before, after, hlineage, -, hown⟩ := h
    exact mem_names_iff.mpr ⟨owner, by simp [hlineage], by simp [hown]⟩
  · simp [concerned_eq, howned]
  · simp [resolve_eq, howned, hkind]
  · simp [resolve_eq, howned]

theorem Unbound.denies (h : store.Unbound id name) : store.Denies id name := by
  have howned := owned_none_iff.mpr h
  have hbinding : store.binding? id name = none := by simp [binding?, howned]
  have hget : store.get? id name = none := by simp [get?, hbinding]
  refine ⟨h, ?_, hget, ?_, ?_, fun hlisted => ?_, ?_, ?_⟩
  · simp [Store.has, hbinding]
  · simp [kind?, hbinding]
  · simp [Store.require, hget]
  · obtain ⟨scope, hscope, hsome⟩ := mem_names_iff.mp hlisted
    rw [h scope hscope] at hsome
    cases hsome
  · simp [concerned_eq, howned]
  · simp [resolve_eq, howned]

/-- **All ways to look a name up agree.**  They answer from the nearest scope that binds the name, or
all of them answer that there is none. -/
theorem answers_or_denies (store : Store) (id : ScopeId) (name : String) :
    (∃ owner binding, store.Answers id name owner binding) ∨ store.Denies id name := by
  cases howned : store.owned? id name with
  | none => exact .inr (owned_none_iff.mp howned).denies
  | some found => exact .inl ⟨found.1, found.2, (owned_iff_nearest.mp howned).answers⟩

end LiveTemplate.Store
