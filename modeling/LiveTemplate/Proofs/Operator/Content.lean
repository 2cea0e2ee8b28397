import LiveTemplate.Proofs.Operator.Build
import LiveTemplate.Proofs.Operator.Folding
import LiveTemplate.Proofs.Scope.Order
import LiveTemplate.Proofs.Value.Content
/-!
# Expressions over like contents

An expression that reads a view of a document ends like one that reads a copy.  Both are put
together alike: whether an operator is applied ahead of evaluation is asked of what the operands
reach, and this does not depend on how a container keeps its content.

`Reflects` relates what two readings of a text make, where the names have like contents: values that
are evaluated alike, and that are alike in what decides about computing ahead.
-/

set_option autoImplicit false

namespace LiveTemplate

open Value
open Run (Related)

section

variable {store : Store} {v w : Value}

/-- What is computed by evaluation has nothing to copy. -/
theorem content_of_isEvaluable (h : v.isEvaluable = true) : v.content = v := by
  cases v with
  | array | map => cases h
  | view ref document path =>
    rw [isEvaluable] at h
    rcases kind_view ref document path with hkind | hkind <;> rw [hkind] at h <;> cases h
  | _ => rfl

/-- Evaluated in effects that differ in references only, a value has the same content. -/
theorem eval_steady (v : Value) :
    Library.Steady (contentBlur store) Effects.Agree (v.eval store) := by
  induction v using nested_induction with
  | node ref op operands ih =>
    exact Operator.apply_related (contentBlur store) Effects.loose_agree op
      (fun a b hab => ⟨hab, trivial⟩) (.inr Effects.exact_agree) (List.forall₂_same.mpr ih)
  | atom v h => cases v <;> first | exact .pure rfl | exact h.elim
  | array | map | filter => exact .pure rfl

/-- Values with like contents are evaluated alike. -/
theorem eval_like (h : (contentBlur store).Like v w) :
    Related Effects.Agree Run.Never (contentBlur store).Like (v.eval store) (w.eval store) := by
  have hevaluable : v.isEvaluable = w.isEvaluable := by rw [isEvaluable, isEvaluable, h.kind]
  cases hv : v.isEvaluable with
  | true =>
    have hcontent : v.content = w.content := h
    rw [content_of_isEvaluable hv, content_of_isEvaluable (hevaluable ▸ hv)] at hcontent
    exact hcontent ▸ eval_steady v
  | false =>
    rw [eval_of_not_isEvaluable hv, eval_of_not_isEvaluable (hevaluable ▸ hv)]
    exact .pure h

/-- Evaluated, the values end in like contents, and they are alike in what decides about computing
ahead. -/
structure Value.Reflects (store : Store) (v w : Value) : Prop where
  eval : Related Effects.Agree Run.Never (contentBlur store).Like (v.eval store) (w.eval store)
  free : v.reachesEvaluable store = w.reachesEvaluable store
  pure : v.isPure store = w.isPure store

theorem reflects_like (h : (contentBlur store).Like v w) : Reflects store v w where
  eval := eval_like h
  free := (unnoticed_copyShown store).reachesEvaluable h
  pure := (unnoticed_copyShown store).isPure h

theorem reachesEvaluable_of_isEvaluable (h : v.isEvaluable = true) :
    v.reachesEvaluable store = true := by
  by_contra hfree
  rw [Bool.not_eq_true] at hfree
  rw [not_isEvaluable hfree] at h
  cases h

theorem reflects_symbol {m n : Ref} {scope scope' : ScopeId} {name : String}
    (h : (contentBlur store).Like (store.seen scope name) (store.seen scope' name)) :
    Reflects store (.symbol m scope name) (.symbol n scope' name) where
  eval := .pure h
  free := by rw [reachesEvaluable_of_isEvaluable rfl, reachesEvaluable_of_isEvaluable rfl]
  pure := rfl

end

namespace Operator

variable {store : Store} {xs ys : List Value}

theorem apply_reflects (op : Operator) (h : List.Forall₂ (Reflects store) xs ys) :
    Related Effects.Agree Run.Never (contentBlur store).Like (op.apply store xs)
      (op.apply store ys) :=
  apply_related (contentBlur store) Effects.loose_agree op (fun _ _ hab => ⟨hab, trivial⟩)
    (.inr Effects.exact_agree) (h.imp fun _ _ hvw => hvw.eval)

theorem reflects_node {m n : Ref} (op : Operator) (h : List.Forall₂ (Reflects store) xs ys) :
    Reflects store (.node m op xs) (.node n op ys) where
  eval := apply_reflects op h
  free := by rw [reachesEvaluable_of_isEvaluable rfl, reachesEvaluable_of_isEvaluable rfl]
  pure := by rw [isPure_node, isPure_node, all_isPure_related store h fun _ _ hvw => hvw.pure]

/-- **Putting an operator on operands that reflect each other.** -/
theorem build_reflects (op : Operator) (h : List.Forall₂ (Reflects store) xs ys) :
    Related Effects.Agree Run.Never (Reflects store) (op.build store xs) (op.build store ys) := by
  unfold build
  rw [isConstant_related store h op (fun _ _ hvw => hvw.pure) fun _ _ hvw => hvw.free]
  split
  · exact (apply_reflects op h).mono fun _ _ => reflects_like
  · exact .fresh_bind Effects.loose_agree fun m n => .pure (reflects_node op h)

end Operator

end LiveTemplate
