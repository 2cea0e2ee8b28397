import LiveTemplate.Proofs.Operator.Related
/-!
# Putting operators on operands

`Operator.build` either computes ahead or makes a node, and which of the two it does is a matter of
its operands alone.  Here is what follows: alike operands are treated alike, and computing ahead is
silent.  Silent means that the result is the same, up to references, in whatever effects the
computation starts, and that none of those effects change but the next reference.  So it holds for
every link that does not look at references, the one included that allows any two effects.
-/

set_option autoImplicit false

namespace LiveTemplate.Operator

open Value

variable (store : Store) {link : Effects → Effects → Prop}

section

variable {R : Value → Value → Prop} {xs ys : List Value} (h : List.Forall₂ R xs ys)

include h

theorem all_isPure_related (hpure : ∀ a b, R a b → a.isPure store = b.isPure store) :
    (xs.all fun v => v.isPure store) = ys.all fun v => v.isPure store := by
  induction h with
  | nil => rfl
  | cons hab _ ih => rw [List.all_cons, List.all_cons, ih, hpure _ _ hab]

theorem any_reachesEvaluable_related
    (hfree : ∀ a b, R a b → a.reachesEvaluable store = b.reachesEvaluable store) :
    (xs.any fun v => v.reachesEvaluable store) = ys.any fun v => v.reachesEvaluable store := by
  induction h with
  | nil => rfl
  | cons hab _ ih => rw [List.any_cons, List.any_cons, ih, hfree _ _ hab]

/-- Whether an operator is applied ahead of evaluation is asked of each operand. -/
theorem isConstant_related (op : Operator) (hpure : ∀ a b, R a b → a.isPure store = b.isPure store)
    (hfree : ∀ a b, R a b → a.reachesEvaluable store = b.reachesEvaluable store) :
    isConstant store op xs = isConstant store op ys := by
  rw [isConstant, isConstant, all_isPure_related store h hpure, any_reachesEvaluable_related store h hfree]

end

theorem isConstant_alike (op : Operator) {xs ys : List Value} (h : AlikeAll xs ys) :
    isConstant store op xs = isConstant store op ys :=
  isConstant_related store (alikeAll_iff.mp h) op (fun _ _ hab => hab.isPure store)
    fun _ _ hab => hab.reachesEvaluable store

variable {store}

theorem free_of_isConstant {op : Operator} {operands : List Value}
    (h : isConstant store op operands = true) : ∀ v ∈ operands, v.reachesEvaluable store = false := by
  simp only [isConstant, Bool.and_eq_true, Bool.not_eq_true', List.any_eq_false,
    Bool.not_eq_true] at h
  exact h.2

theorem isPure_of_isConstant {op : Operator} {operands : List Value}
    (h : isConstant store op operands = true) (hop : op.isSelection = false) :
    ∀ v ∈ operands, v.isPure store = true := by
  simp only [isConstant, hop, Bool.false_or, Bool.and_eq_true, List.all_eq_true] at h
  exact h.1

/-- What is constant is its own value. -/
theorem evaluations_of_free {operands : List Value}
    (h : ∀ v ∈ operands, v.reachesEvaluable store = false) :
    evaluations store operands = operands.map pure := by
  rw [evaluations_eq_map]
  exact List.map_congr_left fun v hv => eval_eq_pure (h v hv)

/-- Values need no running. -/
theorem runAll_pure (vs : List Value) : runAll (vs.map pure) = pure vs := by
  induction vs with
  | nil => rfl
  | cons v rest ih => simp [runAll, ih]

/-- Two operands that an operator may be applied to ahead of evaluation. -/
structure Settled (store : Store) (op : Operator) (a b : Value) : Prop where
  alike : Alike a b
  free : a.reachesEvaluable store = false
  pure : op.isSelection = false → a.isPure store = true

/-- Alike constant operands, in the form in which an operator runs them. -/
theorem evaluations_settled {op : Operator} {lone : Fault → Prop} {xs ys : List Value}
    (h : AlikeAll xs ys) (hc : isConstant store op xs = true) :
    List.Forall₂ (Run.Related link lone (Settled store op)) (evaluations store xs)
      (evaluations store ys) := by
  have hfree := free_of_isConstant hc
  have hfree' := free_of_isConstant ((isConstant_alike store op h).symm.trans hc)
  have hpure : op.isSelection = false → ∀ v ∈ xs, v.isPure store = true := isPure_of_isConstant hc
  rw [evaluations_of_free hfree, evaluations_of_free hfree', List.forall₂_map_left_iff,
    List.forall₂_map_right_iff]
  have hall := (List.forall₂_and_left xs ys).mpr
    ⟨fun v hv => And.intro (hfree v hv) fun hop => hpure hop v hv, alikeAll_iff.mp h⟩
  exact hall.imp fun _ _ hab => .pure ⟨hab.2, hab.1.1, hab.1.2⟩

/-- **Computing ahead is silent.** -/
theorem apply_constant_related (hl : Effects.Loose link) {op : Operator} {xs ys : List Value}
    (h : AlikeAll xs ys) (hc : isConstant store op xs = true) :
    Run.Related link Run.Never Alike (op.apply store xs) (op.apply store ys) := by
  refine applyTo_related (shapes store) hl op (fun a b hab => ⟨hab.alike, hab.free⟩) (.inl ?_)
    (evaluations_settled h hc)
  rintro rfl a b hab
  exact isImpureFunction_of_isPure (hab.pure rfl)

/-- Alike operands make alike values. -/
theorem build_alike (hl : Effects.Loose link) (op : Operator) {xs ys : List Value}
    (h : AlikeAll xs ys) :
    Run.Related link Run.Never Alike (op.build store xs) (op.build store ys) := by
  unfold build
  rw [← isConstant_alike store op h]
  by_cases hc : isConstant store op xs = true
  · rw [if_pos hc, if_pos hc]
    exact apply_constant_related hl h hc
  · rw [if_neg hc, if_neg hc]
    exact .fresh_bind hl fun _ _ => .pure (alike_node op h)

end LiveTemplate.Operator
