import LiveTemplate.Proofs.Operator.Build
import LiveTemplate.Proofs.Operator.Frame
/-!
# Putting operators on the same operands later

Between two readings of one text the store may change.  `Kept` relates what the first reading made
of a part to what the second one makes of it.  They are alike; all that the value reaches is
undisturbed; and the value is computed by evaluation, or it is free of expressions, or else it is
one value at both times, which was bound or selected and not made by reading.

An operator keeps to this relation, as long as the two stores hold the same cells.  The cases are
those of `Operator.build`.  Selecting from the map that stands for a scope may give anything, since
the search for expressions does not enter it; but it gives the same at both times.  Every other
operator that is applied ahead makes a free value of free ones.
-/

set_option autoImplicit false

namespace LiveTemplate

open Value
open Run (Ends Related)

namespace Value

variable {store store' : Store}

/-- The second value is what the first one has become in a later store. -/
structure Kept (store store' : Store) (v w : Value) : Prop where
  alike : Alike v w
  undisturbed : Undisturbed store store' v
  settled : v = w ∨ v.isEvaluable = true ∨ v.reachesEvaluable store = false

/-- A value that was there at both times. -/
theorem Kept.same {v : Value} (h : Undisturbed store store' v) : Kept store store' v v :=
  ⟨.refl v, h, .inl rfl⟩

/-- Two alike expressions.  An expression has no parts that could be selected. -/
theorem Kept.expression {v w : Value} (h : Alike v w) (hv : v.isEvaluable = true) :
    Kept store store' v w := by
  refine ⟨h, ?_, .inr (.inl hv)⟩
  have hparts : v.items store = [] ∧ v.entries store = [] ∧ v.entries store' = [] := by
    cases v with
    | node => exact ⟨rfl, rfl, rfl⟩
    | symbol => exact ⟨rfl, rfl, rfl⟩
    | handle => exact ⟨rfl, rfl, rfl⟩
    | view ref document path =>
      rw [Value.isEvaluable] at hv
      rcases kind_view ref document path with hkind | hkind <;> rw [hkind] at hv <;> cases hv
    | styling ref value => exact ⟨rfl, rfl, rfl⟩
    | _ => cases hv
  obtain ⟨hitems, hentries, hentries'⟩ := hparts
  exact undisturbed_intro (hentries.trans hentries'.symm) (by simp [hitems]) (by simp [hentries])

/-! ## Free values -/

/-- **No operator makes an expression of free values**, unless it selects from a scope. -/
theorem semiclosed_free (store : Store) :
    Semiclosed store fun v => v.reachesEvaluable store = false where
  scalar _ hv := (plain_inline hv).free
  items _ h _ hw := free_item h hw
  array _ _ h := free_iff_missed.mpr (missed_array.mpr fun w hw => free_iff_missed.mp (h w hw))
  map _ _ h := free_iff_missed.mpr (missed_map.mpr fun entry he => free_iff_missed.mp (h entry he))

theorem free_field {v : Value} (h : v.reachesEvaluable store = false) (hv : v.kind ≠ .context)
    (key : String) : (v.field store key).reachesEvaluable store = false := by
  unfold field
  cases hk : Json.lookup? key (v.entries store) with
  | none => exact (semiclosed_free store).scalar _ rfl
  | some w =>
    obtain ⟨entry, he, rfl⟩ := Json.lookup_mem hk
    exact free_entry h hv he

theorem free_selectField {v : Value} (h : v.reachesEvaluable store = false) (hv : v.kind ≠ .context)
    (key : Value) : (v.selectField store key).reachesEvaluable store = false := by
  unfold selectField
  split
  · split
    · exact free_field h hv _
    · split <;> exact (semiclosed_free store).scalar _ rfl
  · exact (semiclosed_free store).scalar _ rfl

theorem free_selectIndex {v : Value} (h : v.reachesEvaluable store = false) (hv : v.kind ≠ .context)
    (key : Value) : (v.selectIndex store key).reachesEvaluable store = false := by
  unfold selectIndex
  split
  · split
    · exact (semiclosed_free store).selectItem h _
    · exact (semiclosed_free store).scalar _ rfl
  · exact free_selectField h hv _

theorem reachesEvaluable_congr (hcells : store.cells = store'.cells) (v : Value) :
    v.reachesEvaluable store = v.reachesEvaluable store' := by
  simp only [reachesEvaluable, walk, expanded_congr hcells]

theorem isPure_congr (hcells : store.cells = store'.cells) (v : Value) :
    v.isPure store = v.isPure store' := by
  simp only [isPure, expanded_congr hcells]

/-! ## Selecting with alike keys -/

theorem selectField_key {key key' : Value} (h : Alike key key') (v : Value) :
    v.selectField store key = v.selectField store key' := by
  have hshape : ∀ key : Value, v.selectField store key.shape = v.selectField store key := by
    intro key
    cases key <;> rfl
  exact h.congr hshape

theorem selectIndex_key {key key' : Value} (h : Alike key key') (v : Value) :
    v.selectIndex store key = v.selectIndex store key' := by
  have hshape : ∀ key : Value, v.selectIndex store key.shape = v.selectIndex store key := by
    intro key
    cases key <;> rfl
  exact h.congr hshape

/-- The map that stands for a scope is made by no template. -/
theorem Alike.eq_of_context {a b : Value} (h : Alike a b) (ha : a.kind = .context) : a = b := by
  have hshape : ∀ v : Value, v.kind = .context → v.shape = v := by
    intro v hv
    cases v <;> first | rfl | cases hv
  have hb : b.kind = .context := by rw [← kind_shape, ← show a.shape = b.shape from h, kind_shape, ha]
  rw [← hshape a ha, ← hshape b hb, show a.shape = b.shape from h]

end Value

section

variable {store store' : Store} (hcells : store.cells = store'.cells)

include hcells

namespace Value.Kept

theorem inline {v : Value} (hv : v.kind.isInline = true) : Kept store store' v v :=
  same ((closed_undisturbed hcells).scalar v hv)

theorem selectField {a a' b b' : Value} (ha : Kept store store' a a') (hb : Alike b b')
    (hfree : a.reachesEvaluable store = false) :
    Kept store store' (a.selectField store b) (a'.selectField store' b') := by
  have hsame := selectField_congr hcells ha.undisturbed.entries b
  have hundisturbed := (closed_undisturbed hcells).selectField ha.undisturbed b
  by_cases hcontext : a.kind = .context
  · -- one scope at both times
    obtain rfl := ha.alike.eq_of_context hcontext
    rw [← selectField_key hb a, ← hsame]
    exact same hundisturbed
  · refine ⟨?_, hundisturbed, .inr (.inr (free_selectField hfree hcontext b))⟩
    rw [hsame]
    exact Blur.Like.selectField (B := shapes store') ha.alike hb

theorem selectIndex {a a' b b' : Value} (ha : Kept store store' a a') (hb : Alike b b')
    (hfree : a.reachesEvaluable store = false) :
    Kept store store' (a.selectIndex store b) (a'.selectIndex store' b') := by
  have hsame := selectIndex_congr hcells ha.undisturbed.entries b
  have hundisturbed := (closed_undisturbed hcells).selectIndex ha.undisturbed b
  by_cases hcontext : a.kind = .context
  · obtain rfl := ha.alike.eq_of_context hcontext
    rw [← selectIndex_key hb a, ← hsame]
    exact same hundisturbed
  · refine ⟨?_, hundisturbed, .inr (.inr (free_selectIndex hfree hcontext b))⟩
    rw [hsame]
    exact Blur.Like.selectIndex (B := shapes store') ha.alike hb

end Value.Kept

namespace Operator

/-- An operator that selects is applied at once. -/
theorem select_kept {op : Operator} (hop : op.isSelection = true) {vs ws : List Value}
    (h : List.Forall₂ (Kept store store') vs ws)
    (hfree : ∀ v ∈ vs, v.reachesEvaluable store = false) :
    Related Effects.Always Run.Never (Kept store store') (op.applyTo store (vs.map pure))
      (op.applyTo store' (ws.map pure)) := by
  cases op
  case field =>
    rcases h with _ | ⟨ha, _ | ⟨hb, _ | ⟨_, _⟩⟩⟩
    · exact .pure (.inline hcells rfl)
    · exact .pure (.inline hcells rfl)
    · exact .pure (ha.selectField hcells hb.alike (hfree _ List.mem_cons_self))
    · exact .pure (.inline hcells rfl)
  case index =>
    rcases h with _ | ⟨ha, _ | ⟨hb, _ | ⟨_, _⟩⟩⟩
    · exact .pure (.inline hcells rfl)
    · exact .pure (.inline hcells rfl)
    · exact .pure (ha.selectIndex hcells hb.alike (hfree _ List.mem_cons_self))
    · exact .pure (.inline hcells rfl)
  all_goals cases hop

theorem isConstant_congr (op : Operator) (operands : List Value) :
    isConstant store op operands = isConstant store' op operands := by
  simp only [isConstant, isPure_congr hcells, reachesEvaluable_congr hcells]

/-- **Operators keep what their operands keep.** -/
theorem build_kept (op : Operator) {vs ws : List Value}
    (h : List.Forall₂ (Kept store store') vs ws) :
    Related Effects.Always Run.Never (Kept store store') (op.build store vs) (op.build store' ws) := by
  have halike : AlikeAll vs ws := alikeAll_iff.mpr (h.imp fun _ _ hkept => hkept.alike)
  have hboth : isConstant store op vs = isConstant store' op ws :=
    (isConstant_congr hcells op vs).trans (isConstant_alike store' op halike)
  unfold build
  by_cases hc : isConstant store op vs = true
  · rw [if_pos hc, if_pos (hboth ▸ hc)]
    have hfree := free_of_isConstant hc
    have hfree' := free_of_isConstant (hboth ▸ hc)
    have hevaluations : evaluations store vs = vs.map pure := evaluations_of_free hfree
    have hevaluations' : evaluations store' ws = ws.map pure := evaluations_of_free hfree'
    unfold apply
    cases hop : op.isSelection with
    | true =>
      rw [hevaluations, hevaluations']
      exact select_kept hcells hop h hfree
    | false =>
      have hundisturbed : ∀ c ∈ evaluations store vs,
          Ends (Undisturbed store store') Fault.IsOverflow c := by
        rw [hevaluations]
        intro c hmem
        obtain ⟨v, hv, rfl⟩ := List.mem_map.mp hmem
        exact .pure (forall_left h (fun _ _ hkept => hkept.undisturbed) v hv)
      have hmade : Ends (fun v => Undisturbed store store' v ∧ v.reachesEvaluable store = false)
          Fault.IsOverflow (op.applyTo store (evaluations store vs)) := by
        refine ((applyTo_ends (closed_undisturbed hcells) op hundisturbed).both
          (applyTo_semiclosed (semiclosed_free store) hop ?_)).mono (fun _ hv => hv) fun _ hx => hx.1
        rw [hevaluations]
        intro c hmem
        obtain ⟨v, hv, rfl⟩ := List.mem_map.mp hmem
        exact .pure (hfree v hv)
      -- the same application in the other store, and then to the other operands
      have hsame : op.applyTo store (evaluations store vs) = op.apply store' vs := by
        rw [applyTo_congr hcells op hundisturbed, hevaluations]
        show _ = op.applyTo store' (evaluations store' vs)
        rw [evaluations_of_free fun v hv => (reachesEvaluable_congr hcells v).symm.trans (hfree v hv)]
      have hrelated : Related Effects.Always Run.Never Alike (op.applyTo store (evaluations store vs))
          (op.applyTo store' (evaluations store' ws)) := by
        rw [hsame]
        exact apply_constant_related Effects.loose_always halike (isConstant_congr hcells op vs ▸ hc)
      have hother : Ends (fun _ => True) Fault.IsOverflow (op.apply store' ws) := apply_ends store' op ws
      exact (hrelated.strengthen hmade hother).mono fun _ _ hv => ⟨hv.1, hv.2.1.1, .inr (.inr hv.2.1.2)⟩
  · rw [if_neg hc, if_neg (hboth ▸ hc)]
    exact .fresh_bind Effects.loose_always fun _ _ => .pure (.expression (alike_node op halike) rfl)

end Operator

end

end LiveTemplate
