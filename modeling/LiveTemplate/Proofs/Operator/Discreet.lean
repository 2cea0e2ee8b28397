import LiveTemplate.Proofs.Run.Related
import LiveTemplate.Proofs.Value.Nested
/-!
# What shows only with an impure call

The random numbers to come and the calls made so far are hidden from a computation until it calls
an impure function, and such a call is recorded.  So a run that records no call does not depend on
them: from any other effects with the same next reference it ends in the very same way.

A computation of which this is true is `Discreet`.  Recorded calls are never taken back, which is
why discretion is kept when computations follow each other: if the whole records no call, no part
of it does.
-/

set_option autoImplicit false

namespace LiveTemplate

/-- No recorded call is taken back, and a run that records none is the same from other effects. -/
structure Discreet {α : Type} (c : Run α) : Prop where
  records : ∀ e, e.calls.length ≤ (c.run e).2.calls.length
  anew : ∀ e f, e.next = f.next → (c.run e).2.calls.length = e.calls.length →
    (c.run f).1 = (c.run e).1 ∧ (c.run f).2.next = (c.run e).2.next ∧
      (c.run e).2.calls = e.calls ∧ (c.run f).2.calls = f.calls

namespace Discreet

variable {α β : Type}

theorem pure (a : α) : Discreet (pure a : Run α) :=
  ⟨fun _ => Nat.le_refl _, fun _ _ hnext _ => ⟨rfl, hnext.symm, rfl, rfl⟩⟩

theorem throw (x : Fault) : Discreet (throw x : Run α) :=
  ⟨fun _ => Nat.le_refl _, fun _ _ hnext _ => ⟨rfl, hnext.symm, rfl, rfl⟩⟩

theorem fresh : Discreet Run.fresh := by
  refine ⟨fun _ => Nat.le_refl _, fun e f hnext _ => ⟨?_, ?_, rfl, rfl⟩⟩
  · show Except.ok f.next = Except.ok e.next
    rw [hnext]
  · show f.next + 1 = e.next + 1
    rw [hnext]

/-- A computation that always records a call says nothing else. -/
theorem ofCalls {c : Run α} (h : ∀ e, e.calls.length < (c.run e).2.calls.length) : Discreet c :=
  ⟨fun e => Nat.le_of_lt (h e), fun e _ _ hquiet => absurd hquiet (Nat.ne_of_gt (h e))⟩

theorem bind {c : Run α} {next : α → Run β} (h : Discreet c) (k : ∀ a, Discreet (next a)) :
    Discreet (c >>= next) := by
  constructor
  · intro e
    have hc := h.records e
    rw [Run.run_bind]
    rcases hr : c.run e with ⟨x | a, e'⟩
    · rwa [hr] at hc
    · rw [hr] at hc
      exact Nat.le_trans hc ((k a).records e')
  · intro e f hnext hquiet
    have hc := h.records e
    have hanew := h.anew e f hnext
    rw [Run.run_bind] at hquiet ⊢
    rw [Run.run_bind]
    rcases hr : c.run e with ⟨x | a, e'⟩ <;> rcases hs : c.run f with ⟨y | b, f'⟩ <;>
      rw [hr] at hc hquiet hanew <;> rw [hs] at hanew
    · obtain ⟨hxy, hrest⟩ := hanew hquiet
      obtain rfl : y = x := by injection hxy
      exact ⟨rfl, hrest⟩
    · cases (hanew hquiet).1
    · have hmore := (k a).records e'
      have hquiet' : e'.calls.length = e.calls.length := Nat.le_antisymm (hquiet ▸ hmore) hc
      cases (hanew hquiet').1
    · -- the first part records no call, since the whole does not
      have hmore := (k a).records e'
      have hquiet' : e'.calls.length = e.calls.length := Nat.le_antisymm (hquiet ▸ hmore) hc
      obtain ⟨hb, hnext', hcalls, hcalls'⟩ := hanew hquiet'
      obtain rfl : b = a := by injection hb
      have hrest := (k b).anew e' f' hnext'.symm (hquiet.trans hquiet'.symm)
      rwa [show e'.calls = e.calls from hcalls, show f'.calls = f.calls from hcalls'] at hrest

/-- **A run that records no call settles the matter**: if all that the references change is related,
the run from any other effects ends in a related value, or else in the same fault, and records no
call either. -/
theorem settles {c : Run α} {R : α → α → Prop} (h : Discreet c)
    (hrelated : Run.Related Effects.Agree Run.Never R c c) {e : Effects}
    (hquiet : (c.run e).2.calls = e.calls) (f : Effects) :
    Run.Paired (fun _ f' => f'.calls = f.calls) Run.Never R (c.run e) (c.run f) := by
  -- first the same references in other effects, then other references in the same effects
  let g : Effects := { f with next := e.next }
  obtain ⟨hsame, -, -, hcalls⟩ := h.anew e g rfl (congrArg _ hquiet)
  have hpair := hrelated g f ⟨rfl, rfl⟩
  revert hsame hcalls hpair
  rcases c.run e with ⟨first, e'⟩
  rcases c.run g with ⟨middle, g'⟩
  generalize c.run f = second
  rintro (rfl : middle = first) hcalls hpair
  cases hpair with
  | values hR hlink => exact .values hR (hlink.calls.symm.trans hcalls)
  | faults hlink => exact .faults (hlink.calls.symm.trans hcalls)
  | alone hx => exact hx.elim

end Discreet

/-! ## Calls -/

theorem discreet_array (items : List Value) : Discreet (Run.array items) :=
  Discreet.fresh.bind fun _ => .pure _

theorem discreet_rangeArray (start stop step : Float) :
    Discreet (Library.rangeArray start stop step) := by
  unfold Library.rangeArray
  split
  · exact .pure _
  · exact discreet_array _

theorem discreet_ofExcept (result : Except Fault Value) : Discreet (Run.ofExcept result) := by
  cases result with
  | ok v => exact .pure v
  | error fault => exact .throw fault

theorem discreet_libraryCall (store : Store) (ref : Ref) (builtin : Builtin) (args : List Value) :
    Discreet (Library.call store ref builtin args) := by
  unfold Library.call
  -- only the two impure functions record a call
  split <;> first
    | exact .pure _
    | exact discreet_array _
    | exact discreet_rangeArray _ _ _
    | exact discreet_ofExcept _
    | exact .ofCalls fun e => Nat.lt_succ_self _
    | (split <;> first
        | exact .pure _
        | exact discreet_array _
        | (split <;> first | exact .pure _ | exact discreet_array _))

theorem discreet_call (store : Store) (callee : Value) (args : List Value) :
    Discreet (callee.call store args) := by
  unfold Value.call
  split
  · exact discreet_libraryCall store _ _ args
  · split <;> exact .pure _
  · exact .pure _

/-! ## Operators -/

theorem discreet_applyStrict (store : Store) (op : Operator) (operands : List Value) :
    Discreet (op.applyStrict store operands) := by
  unfold Operator.applyStrict
  split
  all_goals first
    | exact .pure _
    | exact discreet_array _
    | skip
  · split
    · exact discreet_call store _ _
    · exact .pure _
  · split
    · exact Discreet.fresh.bind fun _ => .pure _
    · exact .pure _

theorem discreet_runAll {operands : List (Run Value)} (h : ∀ c ∈ operands, Discreet c) :
    Discreet (Operator.runAll operands) := by
  induction operands with
  | nil => exact .pure _
  | cons c rest ih =>
    refine (h c List.mem_cons_self).bind fun v => ?_
    exact (ih fun d hd => h d (List.mem_cons_of_mem _ hd)).bind fun values => .pure _

theorem discreet_applyTo (store : Store) (op : Operator) {operands : List (Run Value)}
    (h : ∀ c ∈ operands, Discreet c) : Discreet (op.applyTo store operands) := by
  unfold Operator.applyTo
  split
  · refine (h _ (by simp)).bind fun condition => ?_
    split <;> exact h _ (by simp)
  · refine (h _ (by simp)).bind fun left => ?_
    split <;> first | exact .pure _ | exact h _ (by simp)
  · refine (h _ (by simp)).bind fun left => ?_
    split <;> first | exact .pure _ | exact h _ (by simp)
  · refine (h _ (by simp)).bind fun left => ?_
    split <;> first | exact .pure _ | exact h _ (by simp)
  · split
    · exact (discreet_runAll h).bind fun values => discreet_applyStrict store op values
    · exact .pure _

/-- **Evaluation is discreet.** -/
theorem discreet_eval (store : Store) (v : Value) : Discreet (v.eval store) := by
  induction v using Value.nested_induction with
  | atom v h => cases v <;> first | exact .pure _ | exact h.elim
  | array => exact .pure _
  | map => exact .pure _
  | filter => exact .pure _
  | node ref op operands ih =>
    refine discreet_applyTo store op fun c hc => ?_
    rw [Value.evaluations_eq_map] at hc
    obtain ⟨v, hv, rfl⟩ := List.mem_map.mp hc
    exact ih v hv

end LiveTemplate
