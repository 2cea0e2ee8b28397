import LiveTemplate.Proofs.Operator.Closed
import LiveTemplate.Proofs.Value.Search
/-!
# Plain values

A value is inert if nothing can be reached in it that is computed by evaluation, and plain if no
scope can be reached either: whatever is selected from a plain value, it is what it was when it was
bound.  Evaluation leaves inert values alone, and no operator makes anything but an inert value of
inert values, or anything but a plain value of plain values.

What a plain value reaches depends on the editable containers, and on nothing else in the store.
-/

set_option autoImplicit false

namespace LiveTemplate

namespace Value

/-- The value holds the other one, at any depth. -/
inductive Reaches (store : Store) (v : Value) : Value → Prop
  | refl : Reaches store v v
  | item {w x : Value} : Reaches store v w → x ∈ w.items store → Reaches store v x
  | entry {w : Value} {entry : String × Value} :
      Reaches store v w → entry ∈ w.entries store → Reaches store v entry.2

/-- The value reaches no node and no symbol. -/
def Inert (store : Store) (v : Value) : Prop := ∀ w, Reaches store v w → w.isEvaluable = false

/-- The value reaches no node, no symbol and no scope. -/
def Plain (store : Store) (v : Value) : Prop :=
  ∀ w, Reaches store v w → w.isEvaluable = false ∧ w.kind ≠ .context

section

variable {store : Store} {v : Value}

theorem Reaches.trans {w x : Value} (h : Reaches store v w) (k : Reaches store w x) :
    Reaches store v x := by
  induction k with
  | refl => exact h
  | item _ hx ih => exact ih.item hx
  | entry _ he ih => exact ih.entry he

theorem Inert.reached {w : Value} (h : Inert store v) (hw : Reaches store v w) : Inert store w :=
  fun x hx => h x (hw.trans hx)

theorem Plain.inert (h : Plain store v) : Inert store v := fun w hw => (h w hw).1

theorem Plain.reached {w : Value} (h : Plain store v) (hw : Reaches store v w) : Plain store w :=
  fun x hx => h x (hw.trans hx)

/-- What a value reaches is itself or reached from a part of it. -/
theorem reaches_cases {w : Value} (h : Reaches store v w) :
    w = v ∨ (∃ x ∈ v.items store, Reaches store x w) ∨
      ∃ entry ∈ v.entries store, Reaches store entry.2 w := by
  induction h with
  | refl => exact .inl rfl
  | item _ hx ih =>
    rcases ih with rfl | ⟨y, hy, hw⟩ | ⟨entry, he, hw⟩
    · exact .inr (.inl ⟨_, hx, .refl⟩)
    · exact .inr (.inl ⟨y, hy, hw.item hx⟩)
    · exact .inr (.inr ⟨entry, he, hw.item hx⟩)
  | entry _ hx ih =>
    rcases ih with rfl | ⟨y, hy, hw⟩ | ⟨entry, he, hw⟩
    · exact .inr (.inr ⟨_, hx, .refl⟩)
    · exact .inr (.inl ⟨y, hy, hw.entry hx⟩)
    · exact .inr (.inr ⟨entry, he, hw.entry hx⟩)

/-- A value is plain if it is of a plain kind itself and its parts are plain. -/
theorem plain_intro (hv : v.isEvaluable = false ∧ v.kind ≠ .context)
    (hitems : ∀ w ∈ v.items store, Plain store w)
    (hentries : ∀ entry ∈ v.entries store, Plain store entry.2) : Plain store v := by
  intro w hw
  rcases reaches_cases hw with rfl | ⟨x, hx, hxw⟩ | ⟨entry, he, hew⟩
  · exact hv
  · exact hitems x hx w hxw
  · exact hentries entry he w hew

/-- A value is inert if it is not computed by evaluation itself and its parts are inert. -/
theorem inert_intro (hv : v.isEvaluable = false) (hitems : ∀ w ∈ v.items store, Inert store w)
    (hentries : ∀ entry ∈ v.entries store, Inert store entry.2) : Inert store v := by
  intro w hw
  rcases reaches_cases hw with rfl | ⟨x, hx, hxw⟩ | ⟨entry, he, hew⟩
  · exact hv
  · exact hitems x hx w hxw
  · exact hentries entry he w hew

/-- A value without parts reaches itself only. -/
theorem reaches_single (hitems : v.items store = []) (hentries : v.entries store = []) {w : Value}
    (hw : Reaches store v w) : w = v := by
  rcases reaches_cases hw with rfl | ⟨x, hx, -⟩ | ⟨entry, he, -⟩
  · rfl
  · rw [hitems] at hx
    cases hx
  · rw [hentries] at he
    cases he

theorem reaches_inline (hv : v.kind.isInline = true) {w : Value} (hw : Reaches store v w) : w = v :=
  reaches_single (parts_inline store hv).1 (parts_inline store hv).2 hw

theorem isEvaluable_inline (hv : v.kind.isInline = true) : v.isEvaluable = false := by
  unfold Value.isEvaluable
  revert hv
  cases v.kind <;> simp [Kind.isInline, Kind.isEvaluable]

theorem plain_inline (hv : v.kind.isInline = true) : Plain store v := by
  intro w hw
  obtain rfl := reaches_inline hv hw
  refine ⟨isEvaluable_inline hv, fun hkind => ?_⟩
  rw [hkind] at hv
  cases hv

end

/-- **Operators reach nothing new but scalars and containers.**  A property that these have is one
of everything that a result reaches, if it is one of everything that the operands reach. -/
theorem closed_reaching (store : Store) {Q : Value → Prop}
    (scalar : ∀ v : Value, v.kind.isInline = true → Q v) (array : ∀ ref items, Q (.array ref items))
    (map : ∀ ref entries, Q (.map ref entries)) :
    Closed store fun v => ∀ w, Reaches store v w → Q w where
  scalar v hv w hw := reaches_inline hv hw ▸ scalar v hv
  items _ h _ hx w hw := h w ((Reaches.refl.item hx).trans hw)
  entries _ h _ he w hw := h w ((Reaches.refl.entry he).trans hw)
  array ref items h w hw := by
    rcases reaches_cases hw with rfl | ⟨x, hx, hxw⟩ | ⟨entry, he, -⟩
    · exact array ref items
    · exact h x hx w hxw
    · cases he
  map ref entries h w hw := by
    rcases reaches_cases hw with rfl | ⟨x, hx, -⟩ | ⟨entry, he, hew⟩
    · exact map ref entries
    · cases hx
    · exact h entry he w hew

/-- **No operator leads out of the plain values.** -/
theorem closed_plain (store : Store) : Closed store (Plain store) :=
  closed_reaching store (fun v hv => (plain_inline hv : Plain store v) v .refl) (fun _ _ => ⟨rfl, nofun⟩)
    fun _ _ => ⟨rfl, nofun⟩

/-- **No operator leads out of the inert values.** -/
theorem closed_inert (store : Store) : Closed store (Inert store) :=
  closed_reaching store (fun _ => isEvaluable_inline) (fun _ _ => rfl) fun _ _ => rfl

/-! ## The store behind a plain value -/

theorem items_congr {store store' : Store} (hcells : store.cells = store'.cells) (v : Value) :
    v.items store = v.items store' := by
  cases v with
  | mutableArray ref =>
    show store.cellItems ref = store'.cellItems ref
    unfold Store.cellItems Store.cell?
    rw [hcells]
  | _ => rfl

theorem entries_congr {store store' : Store} (hcells : store.cells = store'.cells) {v : Value}
    (hv : v.kind ≠ .context) : v.entries store = v.entries store' := by
  cases v with
  | mutableMap ref =>
    show store.cellEntries ref = store'.cellEntries ref
    unfold Store.cellEntries Store.cell?
    rw [hcells]
  | context ref scope => exact absurd rfl hv
  | _ => rfl

theorem Plain.congr {store store' : Store} (hcells : store.cells = store'.cells) {v : Value}
    (h : Plain store v) : Plain store' v := by
  have hback : ∀ w, Reaches store' v w → Reaches store v w := by
    intro w hw
    induction hw with
    | refl => exact .refl
    | item _ hx ih => exact ih.item (items_congr hcells _ ▸ hx)
    | entry _ he ih => exact ih.entry (entries_congr hcells (h _ ih).2 ▸ he)
  exact fun w hw => h w (hback w hw)

/-! ## Inert values are free -/

variable {store : Store} {v : Value}

/-- What is held is reached. -/
theorem Holds.reaches {w : Value} (h : Holds store v w) : Reaches store v w := by
  induction h with
  | refl => exact .refl
  | item _ hx ih => exact ih.item hx
  | entry _ _ he ih => exact ih.entry he

theorem Inert.free (h : Inert store v) : v.reachesEvaluable store = false :=
  free_iff_holds.mpr fun w hw => h w hw.reaches

/-- Evaluation leaves an inert value alone. -/
theorem Inert.eval (h : Inert store v) : v.eval store = pure v := eval_eq_pure h.free

theorem Plain.free (h : Plain store v) : v.reachesEvaluable store = false := h.inert.free

theorem Plain.eval (h : Plain store v) : v.eval store = pure v := h.inert.eval

end Value

end LiveTemplate
