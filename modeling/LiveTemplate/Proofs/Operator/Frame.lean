import LiveTemplate.Proofs.Value.Plain
/-!
# What operators ask the store

Operators look into containers, and for the ones that can be edited they ask the store.  Beyond that
they ask it what is bound in a scope, if they have the map that stands for it.  A value is
*undisturbed* from one store to another if all maps that it reaches have the same entries in both.
Two stores that hold the same cells are the same to operators on such values: every operator and
every function of the library is one computation in both.

Plain values are undisturbed whatever the scopes bind.
-/

set_option autoImplicit false

namespace LiveTemplate

open Run (Ends)

theorem Run.bind_congr {α β : Type} {value : α → Prop} {fault : Fault → Prop} {c : Run α}
    {next next' : α → Run β} (h : Ends value fault c) (k : ∀ a, value a → next a = next' a) :
    c >>= next = c >>= next' := by
  refine funext fun e => ?_
  have hc := h e
  show (c >>= next).run e = (c >>= next').run e
  rw [run_bind, run_bind]
  rcases hr : c.run e with ⟨x | a, e'⟩
  · rfl
  · rw [hr] at hc
    simp only [k a hc]

namespace Value

/-- The maps that the value reaches have the same entries in both stores. -/
def Undisturbed (store store' : Store) (v : Value) : Prop :=
  ∀ w, Reaches store v w → w.entries store = w.entries store'

theorem Undisturbed.entries {store store' : Store} {v : Value} (h : Undisturbed store store' v) :
    v.entries store = v.entries store' := h v .refl

/-- A value is undisturbed if its own entries are the same and its parts are undisturbed. -/
theorem undisturbed_intro {store store' : Store} {v : Value}
    (hv : v.entries store = v.entries store')
    (hitems : ∀ w ∈ v.items store, Undisturbed store store' w)
    (hentries : ∀ entry ∈ v.entries store, Undisturbed store store' entry.2) :
    Undisturbed store store' v := by
  intro w hw
  rcases reaches_cases hw with rfl | ⟨x, hx, hxw⟩ | ⟨entry, he, hew⟩
  · exact hv
  · exact hitems x hx w hxw
  · exact hentries entry he w hew

end Value

section

variable {store store' : Store} (hcells : store.cells = store'.cells)

include hcells

namespace Value

/-- Plain values reach no scope whose bindings could change. -/
theorem Plain.undisturbed {v : Value} (h : Plain store v) : Undisturbed store store' v :=
  fun w hw => entries_congr hcells (h w hw).2

/-- **No operator leads out of the undisturbed values.** -/
theorem closed_undisturbed : Closed store (Undisturbed store store') :=
  closed_reaching store (fun v hv => (plain_inline hv).undisturbed hcells v .refl)
    (fun _ _ => rfl) fun _ _ => rfl

/-! ## Containers -/

theorem size_congr {v : Value} (hv : v.entries store = v.entries store') :
    v.size store = v.size store' := by
  cases v with
  | text s => rfl
  | _ => simp only [size, items_congr hcells, hv]

theorem item_congr (i : Nat) (v : Value) : v.item store i = v.item store' i := by
  simp only [item, items_congr hcells]

theorem selectField_congr {v : Value} (hv : v.entries store = v.entries store') (key : Value) :
    v.selectField store key = v.selectField store' key := by
  unfold selectField lengthOf
  cases key with
  | text name => simp only [field, hv, size_congr hcells hv]
  | _ => rfl

theorem selectIndex_congr {v : Value} (hv : v.entries store = v.entries store') (key : Value) :
    v.selectIndex store key = v.selectIndex store' key := by
  unfold selectIndex selectItem
  cases key with
  | number x => simp only [item_congr hcells, size_congr hcells hv]
  | _ => exact selectField_congr hcells hv _

/-! ## Whole values -/

theorem freezeWith_congr {inside inside' : Value → Value} (hinside : ∀ w, inside w = inside' w)
    (v : Value) : freezeWith store inside v = freezeWith store' inside' v := by
  obtain rfl : inside = inside' := funext hinside
  induction v using nested_induction with
  | atom v h =>
    cases v with
    | mutableArray ref =>
      have hitems : store.cellItems ref = store'.cellItems ref := items_congr hcells (.mutableArray ref)
      simp only [freezeWith, hitems]
    | mutableMap ref =>
      have hentries : store.cellEntries ref = store'.cellEntries ref :=
        entries_congr hcells (v := .mutableMap ref) (by simp [kind])
      simp only [freezeWith, hentries]
    | _ => first | rfl | exact h.elim
  | array ref items ih =>
    simp only [freezeWith, freezeItems_eq_map]
    exact congrArg _ (List.map_congr_left ih)
  | map ref entries ih =>
    simp only [freezeWith, freezeEntries_eq_map]
    exact congrArg _ (List.map_congr_left fun entry he => Prod.ext rfl (ih entry he))
  | node ref op operands ih =>
    simp only [freezeWith, freezeItems_eq_map]
    exact congrArg _ (List.map_congr_left ih)
  | filter ref name properties ih =>
    simp only [freezeWith, freezeEntries_eq_map]
    exact congrArg _ (List.map_congr_left fun entry he => Prod.ext rfl (ih entry he))

theorem freezeTo_congr (depth : Nat) (v : Value) :
    freezeTo store depth v = freezeTo store' depth v := by
  induction depth generalizing v with
  | zero => rfl
  | succ depth ih => exact freezeWith_congr hcells ih v

theorem expanded_congr (v : Value) : v.expanded store = v.expanded store' := by
  unfold expanded frozen
  rw [freezeTo_congr hcells, hcells]

theorem same_congr (a b : Value) : a.same store b = a.same store' b := by
  simp only [same, expanded_congr hcells]

end Value

open Value

/-! ## Calls -/

theorem Library.call_congr (ref : Ref) (builtin : Builtin) {args : List Value}
    (h : ∀ v ∈ args, v.entries store = v.entries store') :
    Library.call store ref builtin args = Library.call store' ref builtin args := by
  have hindex : ∀ items v, indexOf store items v = indexOf store' items v := fun items v => by
    simp only [indexOf, same_congr hcells]
  have hitems : ∀ v, itemsOf? store v = itemsOf? store' v := fun v => by
    simp only [itemsOf?, items_congr hcells]
  cases builtin with
  | indexOf =>
    rcases args with _ | ⟨a, _ | ⟨b, _ | ⟨c, rest⟩⟩⟩ <;> simp only [call, hitems, hindex]
  | arraySlice => cases args <;> simp only [call, hitems]
  | keys =>
    rcases args with _ | ⟨a, _ | ⟨b, rest⟩⟩
    · rfl
    · simp only [call, Value.keys, h a List.mem_cons_self]
    · rfl
  | _ => rcases args with _ | ⟨a, _ | ⟨b, _ | ⟨c, _ | ⟨d, rest⟩⟩⟩⟩ <;> rfl

theorem Value.call_congr (callee : Value) {args : List Value}
    (h : ∀ v ∈ args, v.entries store = v.entries store') :
    callee.call store args = callee.call store' args := by
  cases callee with
  | function ref builtin => exact Library.call_congr hcells ref builtin h
  | _ => rfl

namespace Operator

/-! ## Operators -/

theorem applyStrict_congr (op : Operator) {operands : List Value}
    (h : ∀ v ∈ operands, Undisturbed store store' v) :
    op.applyStrict store operands = op.applyStrict store' operands := by
  have hentries : ∀ v ∈ operands, v.entries store = v.entries store' := fun v hv => (h v hv).entries
  cases op with
  | field =>
    rcases operands with _ | ⟨a, _ | ⟨b, _ | ⟨c, rest⟩⟩⟩
    · rfl
    · rfl
    · simp only [applyStrict, selectField_congr hcells (hentries a List.mem_cons_self)]
    · rfl
  | index =>
    rcases operands with _ | ⟨a, _ | ⟨b, _ | ⟨c, rest⟩⟩⟩
    · rfl
    · rfl
    · simp only [applyStrict, selectIndex_congr hcells (hentries a List.mem_cons_self)]
    · rfl
  | call =>
    rcases operands with _ | ⟨callee, _ | ⟨arguments, _ | ⟨c, rest⟩⟩⟩
    · rfl
    · rfl
    · have hargs : ∀ v ∈ arguments.items store', v.entries store = v.entries store' := by
        intro v hv
        rw [← items_congr hcells] at hv
        exact h arguments (by simp) v (Reaches.refl.item hv)
      simp only [applyStrict, items_congr hcells arguments, Value.call_congr hcells callee hargs]
    · rfl
  | map =>
    rcases operands with _ | ⟨flat, _ | ⟨b, rest⟩⟩
    · rfl
    · simp only [applyStrict, items_congr hcells]
    · rfl
  | _ => rcases operands with _ | ⟨a, _ | ⟨b, _ | ⟨c, rest⟩⟩⟩ <;> rfl

/-- **Operators ask the store for cells only**, if all their operands end in undisturbed values. -/
theorem applyTo_congr (op : Operator) {operands : List (Run Value)}
    (h : ∀ c ∈ operands, Ends (Undisturbed store store') Fault.IsOverflow c) :
    op.applyTo store operands = op.applyTo store' operands := by
  have hstrict :
      (if op.arity.accepts operands.length then do op.applyStrict store (← runAll operands)
        else pure .null)
      = (if op.arity.accepts operands.length then do op.applyStrict store' (← runAll operands)
        else pure .null : Run Value) := by
    by_cases harity : op.arity.accepts operands.length = true
    · simp only [harity, if_true]
      exact Run.bind_congr (runAll_ends h) fun values hvalues => applyStrict_congr hcells op hvalues
    · simp only [harity, Bool.false_eq_true, if_false]
  unfold applyTo
  split
  · rfl
  · rfl
  · rfl
  · rfl
  · exact hstrict

end Operator

end

end LiveTemplate
