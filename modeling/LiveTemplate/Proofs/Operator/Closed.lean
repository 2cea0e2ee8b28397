import LiveTemplate.Proofs.Run.Related
import LiveTemplate.Proofs.Value.Nested
/-!
# What the operators keep, and the one way in which they fail

A property of values is *closed* if scalars have it, if the parts of a container have it with the
container, and if a new container has it with its parts.  No operator and no function leads out of
a closed property.  The same passage through all of them shows how a computation can fail: a sum
of day counts may overflow, and there is no other way.
-/

set_option autoImplicit false

namespace LiveTemplate

open Value
open Run (Ends)

/-- The only fault of a computation on values. -/
def Fault.IsOverflow (fault : Fault) : Prop := fault = .sumOverflow

/-- A property that operators do not lead out of, those that select from a container apart. -/
structure Value.Semiclosed (store : Store) (P : Value → Prop) : Prop where
  scalar : ∀ v : Value, v.kind.isInline = true → P v
  items : ∀ v : Value, P v → ∀ w ∈ v.items store, P w
  array : ∀ ref items, (∀ v ∈ items, P v) → P (.array ref items)
  map : ∀ ref entries, (∀ entry ∈ entries, P entry.2) → P (.map ref entries)

/-- A property that operators do not lead out of. -/
structure Value.Closed (store : Store) (P : Value → Prop) : Prop extends
    Value.Semiclosed store P where
  entries : ∀ v : Value, P v → ∀ entry ∈ v.entries store, P entry.2

/-- Every value has no property in particular. -/
theorem Value.closed_true (store : Store) : Value.Closed store fun _ => True where
  scalar _ _ := trivial
  items _ _ _ _ := trivial
  entries _ _ _ _ := trivial
  array _ _ _ := trivial
  map _ _ _ := trivial

theorem Operator.pairUp_forall {P : Value → Prop} {flat : List Value} (h : ∀ v ∈ flat, P v) :
    ∀ entry ∈ Operator.pairUp flat, P entry.2 := by
  induction flat using Operator.pairUp.induct with
  | case1 key value rest ih =>
    intro entry he
    rcases List.mem_cons.mp he with rfl | he
    · exact h value (by simp)
    · exact ih (fun v hv => h v (by simp [hv])) entry he
  | case2 flat hflat =>
    rcases flat with _ | ⟨key, _ | ⟨value, rest⟩⟩
    · exact fun _ he => nomatch he
    · exact fun _ he => nomatch he
    · exact (hflat key value rest rfl).elim

namespace Value

theorem isInline_plus (v : Value) : v.plus.kind.isInline = true := by cases v <;> rfl

theorem isInline_negate (v : Value) : v.negate.kind.isInline = true := by cases v <;> rfl

theorem isInline_multiply (a b : Value) : (a.multiply b).kind.isInline = true := by
  unfold multiply
  split <;> rfl

theorem isInline_divideBy (op : Float → Float → Float) (a b : Value) :
    (a.divideBy op b).kind.isInline = true := by
  unfold divideBy
  split <;> rfl

theorem isInline_combine (op : Float → Float → Float) {otherwise : Value}
    (h : otherwise.kind.isInline = true) (a b : Value) :
    ((combine? op a b).getD otherwise).kind.isInline = true := by
  unfold combine?
  split <;> first | rfl | exact h

end Value

theorem Library.isInline_int (base : Int) (v : Value) :
    (Library.int base v).kind.isInline = true := by
  unfold Library.int
  split
  · rfl
  · split <;> rfl

theorem Library.sliceBy_mem {α : Type} {sequence part : List α} {bounds : List Value}
    (h : Library.sliceBy? sequence bounds = some part) : ∀ a ∈ part, a ∈ sequence := by
  have hslice : ∀ start stop, ∀ a ∈ Library.slice sequence start stop, a ∈ sequence :=
    fun start stop a ha => List.mem_of_mem_drop (List.mem_of_mem_take ha)
  unfold Library.sliceBy? at h
  split at h
  · exact Option.some.inj h ▸ hslice _ _
  · exact Option.some.inj h ▸ hslice _ _
  · exact Option.some.inj h ▸ hslice _ _
  · cases h

theorem runAll_ends {P : Value → Prop} {operands : List (Run Value)}
    (h : ∀ c ∈ operands, Ends P Fault.IsOverflow c) :
    Ends (fun values => ∀ v ∈ values, P v) Fault.IsOverflow (Operator.runAll operands) := by
  induction operands with
  | nil => exact .pure fun _ hv => nomatch hv
  | cons c rest ih =>
    refine (h c List.mem_cons_self).bind fun v hv => ?_
    refine (ih fun d hd => h d (List.mem_cons_of_mem _ hd)).bind fun values hvalues => .pure ?_
    intro w hw
    rcases List.mem_cons.mp hw with rfl | hw
    · exact hv
    · exact hvalues w hw

section

variable {store : Store} {P : Value → Prop}

section

variable (hP : Value.Semiclosed store P)

include hP

/-! ## Elements and merging -/

theorem Value.Semiclosed.item {v : Value} (h : P v) (i : Nat) : P (v.item store i) := by
  unfold Value.item
  cases hi : (v.items store)[i]? with
  | none => exact hP.scalar _ rfl
  | some w => exact hP.items v h w (List.mem_of_getElem? hi)

theorem Value.Semiclosed.selectItem {v : Value} (h : P v) (x : Float) : P (selectItem store v x) := by
  unfold Value.selectItem
  dsimp only
  split
  · split <;> first | exact hP.item h _ | exact hP.scalar _ rfl
  · split <;> first | exact hP.item h _ | exact hP.scalar _ rfl

theorem Value.Semiclosed.merge {a b : Value} (ha : P a) (hb : P b) : P (merge a b) := by
  unfold Value.merge
  split
  · exact hb
  · split
    · exact ha
    · exact hP.scalar _ rfl

theorem Value.Semiclosed.mergeAll {parts : List Value} (h : ∀ v ∈ parts, P v) : P (mergeAll parts) := by
  rcases parts with _ | ⟨first, rest⟩
  · exact hP.scalar _ rfl
  · show P (rest.foldl Value.merge first)
    have hfirst := h first List.mem_cons_self
    have hrest := fun v hv => h v (List.mem_cons_of_mem first hv)
    clear h
    induction rest generalizing first with
    | nil => exact hfirst
    | cons part rest ih =>
      exact ih _ (hP.merge hfirst (hrest part List.mem_cons_self))
        fun v hv => hrest v (List.mem_cons_of_mem _ hv)

/-! ## Calls -/

theorem ends_array {items : List Value} (h : ∀ v ∈ items, P v) :
    Ends P Fault.IsOverflow (Run.array items) :=
  Ends.fresh.bind fun _ _ => .pure (hP.array _ _ h)

theorem ends_rangeArray (start stop step : Float) :
    Ends P Fault.IsOverflow (Library.rangeArray start stop step) := by
  unfold Library.rangeArray
  split
  · exact .pure (hP.array _ _ fun _ hv => nomatch hv)
  · refine ends_array hP fun v hv => ?_
    obtain ⟨x, -, rfl⟩ := List.mem_map.mp hv
    exact hP.scalar _ rfl

theorem ends_timeField (field : TimeField) (time : Float) :
    Ends P Fault.IsOverflow (Run.ofExcept (Library.timeField field time)) := by
  unfold Library.timeField
  split
  · exact .pure (hP.scalar _ rfl)
  · exact .throw rfl
  · exact .pure (hP.scalar _ rfl)

theorem ends_random (ref : Ref) (args : List Value) :
    Ends P Fault.IsOverflow (Library.call store ref .random args) := fun _ => hP.scalar _ rfl

theorem ends_counter (ref : Ref) (args : List Value) :
    Ends P Fault.IsOverflow (Library.call store ref .counter args) := fun _ => hP.scalar _ rfl

/-- **No call leads out of a closed property**, and none fails but by overflow. -/
theorem call_ends (ref : Ref) (builtin : Builtin) {args : List Value} (h : ∀ v ∈ args, P v) :
    Ends P Fault.IsOverflow (Library.call store ref builtin args) := by
  unfold Library.call
  split
  all_goals first
    | exact .pure (hP.scalar _ rfl)
    | exact ends_rangeArray hP _ _ _
    | exact ends_timeField hP _ _
    | exact ends_array hP h
    | exact .pure (hP.scalar _ (Library.isInline_int _ _))
    | exact ends_random hP ref args
    | exact ends_counter hP ref args
    | (split <;> exact .pure (hP.scalar _ rfl))
    | skip
  · rename_i array bounds
    split
    · rename_i items hitems
      split
      · rename_i part hpart
        refine ends_array hP fun v hv => ?_
        have hmem : v ∈ array.items store := by
          unfold Library.itemsOf? at hitems
          split at hitems
          · cases hitems
            exact Library.sliceBy_mem hpart v hv
          · cases hitems
        exact hP.items array (h _ List.mem_cons_self) v hmem
      · exact .pure (hP.scalar _ rfl)
    · exact .pure (hP.scalar _ rfl)
  · split
    · refine ends_array hP fun v hv => ?_
      obtain ⟨key, -, rfl⟩ := List.mem_map.mp hv
      exact hP.scalar _ rfl
    · exact .pure (hP.array _ _ fun _ hv => nomatch hv)

theorem ends_call {callee : Value} {args : List Value} (h : ∀ v ∈ args, P v) :
    Ends P Fault.IsOverflow (callee.call store args) := by
  unfold Value.call
  split
  · exact call_ends hP _ _ h
  · split <;> exact .pure (hP.scalar _ rfl)
  · exact .pure (hP.scalar _ rfl)

/-! ## Operators -/

theorem applyStrict_ends (op : Operator) (hop : op.isSelection = false) {operands : List Value}
    (h : ∀ v ∈ operands, P v) : Ends P Fault.IsOverflow (op.applyStrict store operands) := by
  unfold Operator.applyStrict
  split
  all_goals first
    | exact .pure (hP.scalar _ rfl)
    | exact ends_array hP h
    | exact .pure (hP.mergeAll h)
    | exact .pure (hP.scalar _ (isInline_plus _))
    | exact .pure (hP.scalar _ (isInline_negate _))
    | exact .pure (hP.scalar _ (isInline_multiply _ _))
    | exact .pure (hP.scalar _ (isInline_divideBy _ _ _))
    | exact .pure (hP.scalar _ (isInline_combine _ rfl _ _))
    | skip
  · cases hop
  · cases hop
  · split
    · refine ends_call hP fun v hv => ?_
      exact hP.items _ (h _ (List.mem_cons_of_mem _ List.mem_cons_self)) v hv
    · exact .pure (hP.scalar _ rfl)
  · split
    · refine Ends.fresh.bind fun _ _ => .pure (hP.map _ _ ?_)
      exact Json.sortFields_forall (Operator.pairUp_forall (hP.items _ (h _ List.mem_cons_self)))
    · exact .pure (hP.scalar _ rfl)

end

/-! ## Selecting -/

section

variable (hP : Value.Closed store P)

include hP

theorem Value.Closed.field {v : Value} (h : P v) (key : String) : P (v.field store key) := by
  unfold Value.field
  cases hk : Json.lookup? key (v.entries store) with
  | none => exact hP.scalar _ rfl
  | some w =>
    obtain ⟨entry, he, rfl⟩ := Json.lookup_mem hk
    exact hP.entries v h entry he

theorem Value.Closed.selectField {v : Value} (h : P v) (key : Value) :
    P (selectField store v key) := by
  unfold Value.selectField
  split
  · split
    · exact hP.field h _
    · split <;> exact hP.scalar _ rfl
  · exact hP.scalar _ rfl

theorem Value.Closed.selectIndex {v : Value} (h : P v) (key : Value) :
    P (selectIndex store v key) := by
  unfold Value.selectIndex
  split
  · split
    · exact hP.selectItem h _
    · exact hP.scalar _ rfl
  · exact hP.selectField h _

/-- The operators that select do so at once. -/
theorem select_ends (op : Operator) (hop : op.isSelection = true) {operands : List Value}
    (h : ∀ v ∈ operands, P v) : Ends P Fault.IsOverflow (op.applyStrict store operands) := by
  cases op
  case field =>
    rcases operands with _ | ⟨a, _ | ⟨b, _ | ⟨c, rest⟩⟩⟩
    · exact .pure (hP.scalar _ rfl)
    · exact .pure (hP.scalar _ rfl)
    · exact .pure (hP.selectField (h a List.mem_cons_self) b)
    · exact .pure (hP.scalar _ rfl)
  case index =>
    rcases operands with _ | ⟨a, _ | ⟨b, _ | ⟨c, rest⟩⟩⟩
    · exact .pure (hP.scalar _ rfl)
    · exact .pure (hP.scalar _ rfl)
    · exact .pure (hP.selectIndex (h a List.mem_cons_self) b)
    · exact .pure (hP.scalar _ rfl)
  all_goals cases hop

end

/-- **No operator leads out of a closed property** when it is applied to evaluated operands. -/
theorem applyStrict_closed (hP : Value.Closed store P) (op : Operator) {operands : List Value}
    (h : ∀ v ∈ operands, P v) : Ends P Fault.IsOverflow (op.applyStrict store operands) := by
  cases hop : op.isSelection with
  | true => exact select_ends hP op hop h
  | false => exact applyStrict_ends hP.toSemiclosed op hop h

/-! ## Computations of operands -/

/-- Applying an operator to computations ends like applying it to what they end in. -/
theorem applyTo_ends_of_strict {op : Operator} (hnull : P .null)
    (hstrict : ∀ {values : List Value}, (∀ v ∈ values, P v) →
      Ends P Fault.IsOverflow (op.applyStrict store values))
    {operands : List (Run Value)} (h : ∀ c ∈ operands, Ends P Fault.IsOverflow c) :
    Ends P Fault.IsOverflow (op.applyTo store operands) := by
  have hall : Ends P Fault.IsOverflow
      (if op.arity.accepts operands.length then do op.applyStrict store (← Operator.runAll operands)
        else pure .null) := by
    split
    · exact (runAll_ends h).bind fun _ hvalues => hstrict hvalues
    · exact .pure hnull
  unfold Operator.applyTo
  split
  · refine (h _ (by simp)).bind fun condition _ => ?_
    split <;> exact h _ (by simp)
  · refine (h _ (by simp)).bind fun left hleft => ?_
    split <;> first | exact .pure hleft | exact h _ (by simp)
  · refine (h _ (by simp)).bind fun left hleft => ?_
    split <;> first | exact .pure hleft | exact h _ (by simp)
  · refine (h _ (by simp)).bind fun left hleft => ?_
    split <;> first | exact .pure hleft | exact h _ (by simp)
  · exact hall

/-- An operator that does not select does not lead out of a property that is closed but for
selecting. -/
theorem applyTo_semiclosed (hP : Value.Semiclosed store P) {op : Operator}
    (hop : op.isSelection = false) {operands : List (Run Value)}
    (h : ∀ c ∈ operands, Ends P Fault.IsOverflow c) :
    Ends P Fault.IsOverflow (op.applyTo store operands) :=
  applyTo_ends_of_strict (hP.scalar _ rfl) (fun hvalues => applyStrict_ends hP op hop hvalues) h

/-- **No operator leads out of a closed property**, and none fails but by overflow. -/
theorem applyTo_ends (hP : Value.Closed store P) (op : Operator) {operands : List (Run Value)}
    (h : ∀ c ∈ operands, Ends P Fault.IsOverflow c) :
    Ends P Fault.IsOverflow (op.applyTo store operands) :=
  applyTo_ends_of_strict (hP.scalar _ rfl) (fun hvalues => applyStrict_closed hP op hvalues) h

/-- Operands whose evaluations end in values with a closed property are put together to such a value. -/
theorem apply_closed (hP : Value.Closed store P) (op : Operator) {operands : List Value}
    (h : ∀ v ∈ operands, Ends P Fault.IsOverflow (v.eval store)) :
    Ends P Fault.IsOverflow (op.apply store operands) := by
  refine applyTo_ends hP op fun c hc => ?_
  rw [evaluations_eq_map] at hc
  obtain ⟨v, hv, rfl⟩ := List.mem_map.mp hc
  exact h v hv

end

/-! ## Evaluation -/

/-- **Evaluation fails only by overflow.** -/
theorem eval_ends (store : Store) (v : Value) :
    Ends (fun _ => True) Fault.IsOverflow (v.eval store) := by
  induction v using nested_induction with
  | atom v h => cases v <;> first | exact .pure trivial | exact h.elim
  | array => exact .pure trivial
  | map => exact .pure trivial
  | filter => exact .pure trivial
  | node ref op operands ih => exact apply_closed (Value.closed_true store) op ih

theorem apply_ends (store : Store) (op : Operator) (operands : List Value) :
    Ends (fun _ => True) Fault.IsOverflow (op.apply store operands) :=
  apply_closed (Value.closed_true store) op fun v _ => eval_ends store v

theorem build_ends (store : Store) (op : Operator) (operands : List Value) :
    Ends (fun _ => True) Fault.IsOverflow (op.build store operands) := by
  unfold Operator.build
  split
  · exact apply_ends store op operands
  · exact Ends.fresh.bind fun _ _ => .pure trivial

end LiveTemplate
