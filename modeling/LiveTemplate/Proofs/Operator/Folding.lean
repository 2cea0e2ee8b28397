import LiveTemplate.Proofs.Operator.Build
import LiveTemplate.Proofs.Value.Plain
/-!
# Computing ahead or later

Reading a template in two scopes, one with constants where the other one has names that can be
written, puts the same operators on operands of two sorts: values here, and nodes and symbols
there.  `Stands` relates the two.  What was computed ahead stands for what is still to be computed
if evaluating both ends alike, with the same random numbers drawn and the same impure functions
called.

Putting an operator on related operands gives related values.  If both sides compute, it is one
computation on alike values.  If neither does, it is one computation for later.  If only the first
side does, it has computed what the second one will compute; and since computing ahead is silent,
it does not matter that the two do so at different times.  The first side never has to wait where
the second one does not.

There is one thing that only the first side can meet: it computes operands that a lazy operator
might never have asked for, and one of these may overflow.
-/

set_option autoImplicit false

namespace LiveTemplate

open Value
open Run (Ends Related)

theorem Effects.exact_agree : Effects.Exact Effects.Agree := fun _ _ => .rfl

/-- The first value was computed ahead where the second one may still have to be computed. -/
structure Stands (store : Store) (v w : Value) : Prop where
  eval : Related Effects.Agree Run.Never Alike (v.eval store) (w.eval store)
  plain : Ends (Plain store) Fault.IsOverflow (v.eval store)
  settled : w.reachesEvaluable store = false → Alike v w

section

variable {store : Store}

theorem stands_plain {v w : Value} (hv : Plain store v) (h : Alike v w) : Stands store v w where
  eval := by
    rw [hv.eval, eval_eq_pure ((h.reachesEvaluable store).symm.trans hv.free)]
    exact .pure h
  plain := by
    rw [hv.eval]
    exact .pure hv
  settled _ := h

/-- What is found under a name stands for the symbol of the name. -/
theorem stands_symbol {v : Value} (hv : Plain store v) {ref : Ref} {scope : ScopeId} {name : String}
    (hlive : store.isLive scope = true) (hget : store.get scope name = v) :
    Stands store v (.symbol ref scope name) where
  eval := by
    have hsymbol : (Value.symbol ref scope name).eval store = pure v := by
      simp [Value.eval, hlive, hget]
    rw [hv.eval, hsymbol]
    exact .pure rfl
  plain := by
    rw [hv.eval]
    exact .pure hv
  settled hfree := by
    have := not_isEvaluable hfree
    cases this

end

namespace Operator

variable {store : Store} {op : Operator} {xs ys : List Value}

/-- Applied to operands of which the ones stand for the others, an operator gives alike results. -/
theorem apply_stands (h : List.Forall₂ (Stands store) xs ys) :
    Related Effects.Agree Run.Never Alike (op.apply store xs) (op.apply store ys) :=
  apply_related (shapes store) Effects.loose_agree op (fun _ _ hab => ⟨hab.1, hab.2.1.free⟩)
    (.inr Effects.exact_agree)
    (h.imp fun _ w hvw => hvw.eval.strengthen hvw.plain (eval_ends store w))

theorem apply_plain (h : List.Forall₂ (Stands store) xs ys) :
    Ends (Plain store) Fault.IsOverflow (op.apply store xs) :=
  apply_closed (closed_plain store) op (forall_left h fun _ _ hvw => hvw.plain)

/-- Operands that are all settled are alike. -/
theorem alikeAll_of_stands (h : List.Forall₂ (Stands store) xs ys)
    (hfree : ∀ w ∈ ys, w.reachesEvaluable store = false) : AlikeAll xs ys := by
  rw [alikeAll_iff]
  induction h with
  | nil => exact .nil
  | cons hab _ ih =>
    refine .cons (hab.settled (hfree _ List.mem_cons_self)) ?_
    exact ih fun w hw => hfree w (List.mem_cons_of_mem _ hw)

/-- What has been computed ahead, at whatever time, is what is computed later. -/
theorem related_ahead {d : Run Value} (hc : isConstant store op xs = true)
    (h : Related Effects.Agree Run.Never Alike (op.apply store xs) d) {e e' : Effects} {v : Value}
    (hr : (op.apply store xs).run e = (.ok v, e')) :
    e'.Agree e ∧ Related Effects.Agree Run.Never Alike (pure v) d := by
  have hanew : ∀ f, Run.Paired (Effects.Beside e f) Run.Never Alike ((op.apply store xs).run e)
      ((op.apply store xs).run f) := fun f =>
    apply_constant_related (Effects.loose_beside e f) (rfl : AlikeAll xs xs) hc e f ⟨.refl e, .refl f⟩
  constructor
  · have hp := hanew e
    rw [hr] at hp
    cases hp with
    | values _ hlink => exact hlink.1
  · intro f g hfg
    have hp := hanew f
    have hq := h f g hfg
    rw [hr] at hp
    revert hp hq
    generalize (op.apply store xs).run f = later, d.run g = other
    intro hp hq
    cases hp with
    | values hvw hlink => cases hq with
      | values hwx hlink' => exact .values (hvw.trans hwx) (hlink.2.symm.trans hlink')

/-- **Putting an operator on related operands.** -/
theorem build_stands (op : Operator) (h : List.Forall₂ (Stands store) xs ys) :
    Related Effects.Agree Fault.IsOverflow (Stands store) (op.build store xs) (op.build store ys) := by
  unfold build
  by_cases hy : isConstant store op ys = true
  · have halike := alikeAll_of_stands h (free_of_isConstant hy)
    rw [if_pos ((isConstant_alike store op halike).trans hy), if_pos hy]
    refine (((apply_stands h).strengthen (apply_plain h) (apply_ends store op ys)).mono ?_).allow
    exact fun v w hvw => stands_plain hvw.2.1 hvw.1
  · rw [if_neg hy]
    by_cases hx : isConstant store op xs = true
    · rw [if_pos hx]
      intro e f hef
      have hends : Ends (Plain store) Fault.IsOverflow (op.apply store xs) := apply_plain h
      have hplain := hends e
      rcases hr : (op.apply store xs).run e with ⟨x | v, e'⟩
      · rw [hr] at hplain
        exact .alone hplain
      · rw [hr] at hplain
        obtain ⟨hsilent, hlater⟩ := related_ahead hx (apply_stands h) hr
        have hnode : Stands store v (.node f.next op ys) := by
          constructor
          · rw [Plain.eval hplain]
            exact hlater
          · rw [Plain.eval hplain]
            exact .pure hplain
          · intro hfree
            have := not_isEvaluable hfree
            cases this
        exact .values hnode (hsilent.trans (hef.trans ⟨rfl, rfl⟩))
    · rw [if_neg hx]
      refine .fresh_bind Effects.loose_agree fun m n => .pure ?_
      constructor
      · exact apply_stands h
      · exact apply_plain h
      · intro hfree
        have := not_isEvaluable hfree
        cases this

end Operator

end LiveTemplate
