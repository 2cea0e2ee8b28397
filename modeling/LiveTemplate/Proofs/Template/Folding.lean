import LiveTemplate.Proofs.Operator.Folding
import LiveTemplate.Proofs.Scope.Binding
import LiveTemplate.Proofs.Template.Parametric
import LiveTemplate.Proofs.Template.Reading
/-!
# Constants against names that can be written

A template is read and evaluated in two scopes that bind the same names to the same values, one as
constants and the other one for the user to write.  In the first scope nearly everything is
computed while the template is read, in the second one nearly nothing is.  The two evaluations end
in the same value, up to references, and call the same impure functions in the same order.

With one exception.  Computing ahead does not wait for lazy operators: the right side of `||` is
computed in the first scope even if the left side settles the matter, and a day count that
overflows there breaks off the reading.  In the second scope it would never have been computed.
-/

set_option autoImplicit false

namespace LiveTemplate

open Value
open Run (Ends Related)

/-! ## Two scopes that show the same -/

/-- Whatever name is looked up, what the first scope gives stands for what the second one gives. -/
structure Twins (store : Store) (a b : ScopeId) : Prop where
  viewport : store.viewport a = store.viewport b
  resolve : ∀ name, Related Effects.Agree Fault.IsOverflow (Stands store) (store.resolve a name)
    (store.resolve b name)

namespace Twins

variable {store : Store} {a b : ScopeId} (h : Twins store a b)

include h

theorem corresponds :
    Template.Corresponds Effects.Agree Fault.IsOverflow (Stands store) store store a b where
  leaf := Template.ofLeaf_related h.viewport (fun _ hv => stands_plain (plain_inline hv) rfl) h.resolve
  builder := {
    blank := stands_plain (plain_inline rfl) rfl
    build := fun op _ _ hvs => Operator.build_stands op hvs }

theorem evaluate (source : String) :
    Related Effects.Agree Fault.IsOverflow Alike (Template.evaluate store a source)
      (Template.evaluate store b source) :=
  h.corresponds.evaluate (fun _ => stands_plain (plain_inline rfl) rfl) (fun s => .refl (.text s))
    (fun _ _ hvw => hvw.eval.allow) source

end Twins

/-! ## Two children of one root -/

namespace Store

/-- Add a scope below another one, bind names in it, all with one kind, and hold it. -/
def addBound (store : Store) (parent : ScopeId) (kind : BindingKind)
    (bound : List (String × Value)) : Store × ScopeId :=
  let (extended, id) := store.addChild parent
  (bound.foldl (fun store entry => store.bind id entry.1 ⟨entry.2, kind⟩) (extended.hold id), id)

/-- The scope that is added. -/
def boundScope (store : Store) (parent : ScopeId) (scope : Scope) (kind : BindingKind)
    (sorted : List (String × Value)) : Scope :=
  { scope with
    lineage := store.scopes.length :: store.lineage parent
    bindings := sorted.map (Json.onEntry fun v => ⟨v, kind⟩) }

theorem modify_last {α : Type} (xs : List α) (x : α) (f : α → α) :
    (xs ++ [x]).modify xs.length f = xs ++ [f x] := by
  induction xs with
  | nil => rfl
  | cons y rest ih => simp [List.modify_succ_cons, ih]

theorem addBound_eq {store : Store} {parent : ScopeId} {scope : Scope}
    (h : store.scope? parent = some scope) (kind : BindingKind) (bound : List (String × Value)) :
    store.addBound parent kind bound
      = (⟨store.scopes ++ [store.boundScope parent scope kind (Json.sortFields bound)],
          store.scopes.length :: store.held, store.cells⟩, store.scopes.length) := by
  -- the names are put in one after the other, starting with those that are there
  have hbind : ∀ sorted : List (String × Value),
      bound.foldl (fun store' entry => store'.bind store.scopes.length entry.1 ⟨entry.2, kind⟩)
          (⟨store.scopes ++ [store.boundScope parent scope kind sorted],
            store.scopes.length :: store.held, store.cells⟩ : Store)
        = ⟨store.scopes ++ [store.boundScope parent scope kind
            (bound.foldl (fun sorted field => Json.insertField field.1 field.2 sorted) sorted)],
          store.scopes.length :: store.held, store.cells⟩ := by
    induction bound with
    | nil => exact fun _ => rfl
    | cons entry rest ih =>
      intro sorted
      have hentry := Json.insertField_map (fun v => (⟨v, kind⟩ : Binding)) entry.1 entry.2 sorted
      rw [List.foldl_cons, List.foldl_cons, ← ih, bind, modify_last]
      simp only [boundScope, hentry]
  unfold addBound addChild
  rw [h]
  exact congrArg (·, store.scopes.length) (hbind [])

variable {store : Store} {parent : ScopeId} {scope : Scope}

theorem addBound_id (h : store.scope? parent = some scope) (kind : BindingKind)
    (bound : List (String × Value)) :
    (store.addBound parent kind bound).2 = store.scopes.length := by
  rw [addBound_eq h]

theorem scope?_addBound_new (h : store.scope? parent = some scope) (kind : BindingKind)
    (bound : List (String × Value)) :
    (store.addBound parent kind bound).1.scope? store.scopes.length
      = some (store.boundScope parent scope kind (Json.sortFields bound)) := by
  rw [addBound_eq h]
  simp [scope?]

theorem scope?_addBound_old (h : store.scope? parent = some scope) (kind : BindingKind)
    (bound : List (String × Value)) {id : ScopeId} {old : Scope} (hold : store.scope? id = some old) :
    (store.addBound parent kind bound).1.scope? id = some old := by
  have hlt : id < store.scopes.length := (List.getElem?_eq_some_iff.mp hold).1
  rw [addBound_eq h, ← hold]
  exact List.getElem?_append_left hlt

theorem cells_addBound (h : store.scope? parent = some scope) (kind : BindingKind)
    (bound : List (String × Value)) : (store.addBound parent kind bound).1.cells = store.cells := by
  rw [addBound_eq h]

theorem held_addBound (h : store.scope? parent = some scope) (kind : BindingKind)
    (bound : List (String × Value)) :
    (store.addBound parent kind bound).1.held = store.scopes.length :: store.held := by
  rw [addBound_eq h]

theorem isLive_addBound (h : store.scope? parent = some scope) (kind : BindingKind)
    (bound : List (String × Value)) :
    (store.addBound parent kind bound).1.isLive store.scopes.length = true := by
  refine isLive_of_held ?_ ?_
  · rw [held_addBound h]
    exact List.mem_cons_self
  · unfold lineage
    rw [scope?_addBound_new h]
    simp [boundScope]

/-- A name is owned by the scope itself, or else by whoever owns it further up. -/
theorem owned?_step {id : ScopeId} {child : Scope} {ancestors : List ScopeId}
    (hchild : store.scope? id = some child) (hlineage : child.lineage = id :: ancestors)
    (name : String) :
    store.owned? id name = match Json.lookup? name child.bindings with
      | some binding => some (id, binding)
      | none => ancestors.findSome? fun ancestor =>
        (store.ownBinding? ancestor name).map fun binding => (ancestor, binding) := by
  unfold owned? lineage
  rw [hchild]
  simp only [hlineage, List.findSome?_cons]
  unfold ownBinding?
  rw [hchild, Option.bind_eq_bind, Option.bind_some]
  cases Json.lookup? name child.bindings <;> rfl

/-- In a child of a root, a name is owned by the child or else by the root. -/
theorem owned?_child {id root : ScopeId} {child : Scope}
    (hchild : store.scope? id = some child) (hlineage : child.lineage = [id, root])
    (hroot : store.scope? root = some scope) (name : String) :
    store.owned? id name = match Json.lookup? name child.bindings with
      | some binding => some (id, binding)
      | none => (Json.lookup? name scope.bindings).map fun binding => (root, binding) := by
  rw [owned?_step hchild hlineage, List.findSome?_singleton, ownBinding?, hroot]
  rfl

end Store

/-! ## The two evaluations -/

section

variable {store : Store} {root : ScopeId} {scope : Scope} {bound : List (String × Value)}

variable {a b : ScopeId} {first second : Scope} {sorted : List (String × Value)}

/-- Two children of one root show the same if they bind the same. -/
theorem twins_children (ha : store.scope? a = some first) (hb : store.scope? b = some second)
    (hroot : store.scope? root = some scope) (hla : first.lineage = [a, root])
    (hlb : second.lineage = [b, root]) (hviewport : first.viewport = second.viewport)
    (hfirst : first.bindings = sorted.map (Json.onEntry fun v => ⟨v, .constant⟩))
    (hsecond : second.bindings = sorted.map (Json.onEntry fun v => ⟨v, .user⟩))
    (hlive : store.isLive b = true) (hsorted : ∀ entry ∈ sorted, Plain store entry.2)
    (hscope : ∀ entry ∈ scope.bindings, entry.2.kind = .constant ∧ Plain store entry.2.value) :
    Twins store a b := by
  constructor
  · simp [Store.viewport, ha, hb, hviewport]
  · intro name
    have howna := Store.owned?_child ha hla hroot name
    have hownb := Store.owned?_child hb hlb hroot name
    rw [hfirst, Json.lookup_map] at howna
    rw [hsecond, Json.lookup_map] at hownb
    rw [Store.resolve_eq, Store.resolve_eq, howna, hownb]
    cases hname : Json.lookup? name sorted with
    | some v =>
      obtain ⟨entry, hentry, rfl⟩ := Json.lookup_mem hname
      have hget : store.get b name = entry.2 := by
        simp [Store.get, Store.get?, Store.binding?, hownb, hname]
      intro e f hef
      exact .values (stands_symbol (hsorted entry hentry) hlive hget) (hef.trans ⟨rfl, rfl⟩)
    | none =>
      cases hroot : Json.lookup? name scope.bindings with
      | some binding =>
        obtain ⟨entry, hentry, rfl⟩ := Json.lookup_mem hroot
        obtain ⟨hkind, hplain⟩ := hscope entry hentry
        simp only [Option.map_some, Option.map_none, hkind]
        exact .pure (stands_plain hplain rfl)
      | none => exact .pure (stands_plain (plain_inline rfl) rfl)

/-- The store with two children of a root that bind the same, the first one as constants and the
second one for the user to write; and the two children. -/
def Store.addTwins (store : Store) (root : ScopeId) (bound : List (String × Value)) :
    Store × ScopeId × ScopeId :=
  let (first, a) := store.addBound root .constant bound
  let (second, b) := first.addBound root .user bound
  (second, a, b)

theorem twins_addTwins (hroot : store.scope? root = some scope) (hlineage : scope.lineage = [root])
    (hscope : ∀ entry ∈ scope.bindings, entry.2.kind = .constant ∧ Plain store entry.2.value)
    (hbound : ∀ entry ∈ bound, Plain store entry.2) :
    Twins (store.addTwins root bound).1 (store.addTwins root bound).2.1
      (store.addTwins root bound).2.2 := by
  have hlineage' : store.lineage root = [root] := by simp [Store.lineage, hroot, hlineage]
  have hroot₁ := Store.scope?_addBound_old hroot .constant bound hroot
  have hlineage₁ : (store.addBound root .constant bound).1.lineage root = [root] := by
    simp [Store.lineage, hroot₁, hlineage]
  have hcells := Store.cells_addBound hroot₁ .user bound
  rw [Store.cells_addBound hroot] at hcells
  have hsorted := Json.sortFields_forall hbound
  unfold Store.addTwins
  dsimp only
  rw [Store.addBound_id hroot, Store.addBound_id hroot₁]
  exact twins_children
    (Store.scope?_addBound_old hroot₁ .user bound (Store.scope?_addBound_new hroot .constant bound))
    (Store.scope?_addBound_new hroot₁ .user bound) (Store.scope?_addBound_old hroot₁ .user bound hroot₁)
    (by simp [Store.boundScope, hlineage']) (by simp [Store.boundScope, hlineage₁]) rfl rfl rfl
    (Store.isLive_addBound hroot₁ .user bound) (fun entry he => (hsorted entry he).congr hcells.symm)
    fun entry he => ⟨(hscope entry he).1, (hscope entry he).2.congr hcells.symm⟩

theorem evaluate_ends (store : Store) (id : ScopeId) (source : String) :
    Ends (fun _ => True) Fault.IsOverflow (Template.evaluate store id source) := by
  unfold Template.evaluate Template.read
  by_cases htemplate : Template.isTemplate source = true
  · rw [if_pos htemplate]
    refine (Template.parse_ends store id source).bind fun result _ => ?_
    cases result with
    | ok v => exact eval_ends store v
    | error mistake => exact .pure trivial
  · rw [if_neg htemplate]
    exact .pure trivial

end

/-- A root that binds one function of time. -/
def clock : Store := ⟨[⟨[0], [("year", ⟨.function 2 (.time .year), .constant⟩)], {}, {}⟩], [0], []⟩

/-- The exception is one: the second operand overflows ahead, and nobody asks for it later. -/
example :
    let twins := clock.addTwins 0 [("x", .number 1e300)]
    let source := "$\x7btrue || year(x)\x7d"
    (match (Template.evaluate twins.1 twins.2.1 source).run (Effects.initial 1) with
      | (.error fault, _) => fault == .sumOverflow
      | _ => false) &&
    (match (Template.evaluate twins.1 twins.2.2 source).run (Effects.initial 1) with
      | (.ok (.bool value), _) => value
      | _ => false) := by decide +kernel

end LiveTemplate
