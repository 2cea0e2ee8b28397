import LiveTemplate.Proofs.Operator.Folding
import LiveTemplate.Proofs.Syntax.Meaning
import LiveTemplate.Proofs.Value.Content
/-!
# Evaluating what a term gives

All values that a term gives are alike: they differ in the references of arrays, maps, nodes and
symbols.  That is not enough to evaluate them side by side in every scope, since a name may be bound to
a node, and equality looks at the reference of a node.  But the nodes that evaluation meets as operands
are those that were bound before, and they are the same on both sides.  So what is evaluated of two
values of a term is related more closely than the values are: it differs in the references of arrays
and maps only, and no operator looks at those.
-/

set_option autoImplicit false

namespace LiveTemplate

open Value
open Run (Ends Related)

variable {store : Store} {scope : ScopeId}

namespace Value

/-- Evaluation ends alike each time, if the same numbers are drawn and the same calls have been made. -/
theorem eval_steady (v : Value) : Library.Steady (bareBlur store) Effects.Agree (v.eval store) := by
  induction v using nested_induction with
  | node ref op operands ih =>
    exact Operator.apply_related (bareBlur store) Effects.loose_agree op
      (R := (bareBlur store).Like) (fun a b hab => ⟨hab, trivial⟩) (.inr Effects.exact_agree)
      (List.forall₂_same.mpr ih)
  | atom v hatom => cases v <;> first | exact .pure rfl | exact hatom.elim
  | array | map | filter => exact .pure rfl

theorem isFixed_bare (v : Value) : v.bare.isFixed = v.isFixed := by cases v <;> rfl

theorem eval_fixed {v : Value} (h : v.isFixed = true) : v.eval store = pure v := by
  cases v <;> first | rfl | cases h

/-- Values that differ in the references of arrays and maps only are evaluated alike. -/
theorem eval_like {v w : Value} (h : (bareBlur store).Like v w) :
    Related Effects.Agree Run.Never (bareBlur store).Like (v.eval store) (w.eval store) := by
  have hbare : v.bare = w.bare := h
  have hfixed : v.isFixed = w.isFixed := by rw [← isFixed_bare v, ← isFixed_bare w, hbare]
  cases hv : v.isFixed with
  | true =>
    rw [eval_fixed hv, eval_fixed (hfixed.symm.trans hv)]
    exact .pure h
  | false =>
    -- what is no container is the same on both sides
    rw [show v.bare = v from rebuild_leaf id hv,
      show w.bare = w from rebuild_leaf id (hfixed.symm.trans hv)] at hbare
    subst hbare
    exact eval_steady v

end Value

/-- Two values of one term.  They are alike, and what is evaluated of them differs in the references of
arrays and maps only. -/
structure Value.Parallel (store : Store) (v w : Value) : Prop where
  alike : Alike v w
  eval : Related Effects.Agree Run.Never (bareBlur store).Like (v.eval store) (w.eval store)
  settled : v.reachesEvaluable store = false → (bareBlur store).Like v w

namespace Value.Parallel

theorem like {v w : Value} (halike : Alike v w) (h : (bareBlur store).Like v w) : Parallel store v w :=
  ⟨halike, eval_like h, fun _ => h⟩

theorem refl (v : Value) : Parallel store v v := like (.refl v) rfl

/-- Two symbols for one name find the same. -/
theorem symbol (m n : Ref) (owner : ScopeId) (name : String) :
    Parallel store (.symbol m owner name) (.symbol n owner name) where
  alike := rfl
  eval := .pure rfl
  settled hfree := by
    have := not_isEvaluable hfree
    cases this

end Value.Parallel

namespace Operator

variable {op : Operator} {xs ys : List Value}

/-- Computing ahead gives results that differ in the references of arrays and maps only. -/
theorem apply_constant_like {link : Effects → Effects → Prop} (hl : Effects.Loose link)
    (h : List.Forall₂ (Parallel store) xs ys) (hc : isConstant store op xs = true)
    (hc' : isConstant store op ys = true) :
    Related link Run.Never (bareBlur store).Like (op.apply store xs) (op.apply store ys) := by
  have hfree := free_of_isConstant hc
  have hpure : op.isSelection = false → ∀ v ∈ xs, v.isPure store = true := isPure_of_isConstant hc
  refine applyTo_related (bareBlur store) hl op
    (R := fun a b => (bareBlur store).Like a b ∧ (op.isSelection = false → a.isPure store = true))
    (fun a b hab => ⟨hab.1, trivial⟩) (.inl ?_) ?_
  · rintro rfl a b hab
    exact isImpureFunction_of_isPure (hab.2 rfl)
  · rw [evaluations_of_free hfree, evaluations_of_free (free_of_isConstant hc'),
      List.forall₂_map_left_iff, List.forall₂_map_right_iff]
    have hall := (List.forall₂_and_left xs ys).mpr
      ⟨fun v hv => And.intro (hfree v hv) fun hop => hpure hop v hv, h⟩
    exact hall.imp fun _ _ hab => .pure ⟨hab.2.settled hab.1.1, hab.1.2⟩

/-- **Putting an operator on two values each**, at whatever times, makes two values that are evaluated
alike. -/
theorem build_parallel (h : List.Forall₂ (Parallel store) xs ys) {v w : Value} {e e' f f' : Effects}
    (hr : (op.build store xs).run e = (.ok v, e')) (hs : (op.build store ys).run f = (.ok w, f')) :
    Parallel store v w := by
  have halikes : AlikeAll xs ys := alikeAll_iff.mpr (h.imp fun _ _ hab => hab.alike)
  have halike : Alike v w := (build_anew hr halikes).value hs
  have hconstant := isConstant_alike store op halikes
  unfold build at hr hs
  by_cases hc : isConstant store op xs = true
  · rw [if_pos hc] at hr
    rw [if_pos (hconstant.symm.trans hc)] at hs
    have hlike := apply_constant_like Effects.loose_always h hc (hconstant.symm.trans hc)
    exact .like halike ((hlike.ends hr).value hs)
  · rw [if_neg hc] at hr
    rw [if_neg fun hc' => hc (hconstant.trans hc')] at hs
    cases hr
    cases hs
    refine ⟨halike, ?_, fun hfree => ?_⟩
    · exact apply_related (bareBlur store) Effects.loose_agree op
        (R := (bareBlur store).Like) (fun a b hab => ⟨hab, trivial⟩) (.inr Effects.exact_agree)
        (h.imp fun _ _ hab => hab.eval)
    · have := not_isEvaluable hfree
      cases this

end Operator

theorem Leaf.gives_parallel {operand : Leaf} {v w : Value}
    (hv : (Term.leaf operand).Gives store scope v) (hw : (Term.leaf operand).Gives store scope w) :
    Parallel store v w := by
  obtain ⟨e, e', hr⟩ := hv
  obtain ⟨f, f', hs⟩ := hw
  cases operand with
  | name name =>
    have hr : (store.resolve scope name).run e = (.ok v, e') := hr
    have hs : (store.resolve scope name).run f = (.ok w, f') := hs
    rw [Store.resolve_eq] at hr hs
    cases howned : store.owned? scope name with
    | none =>
      rw [howned] at hr hs
      cases hr
      cases hs
      exact .refl _
    | some found =>
      obtain ⟨owner, value, kind⟩ := found
      rw [howned] at hr hs
      cases kind with
      | constant =>
        cases hr
        cases hs
        exact .refl _
      | _ =>
        cases hr
        cases hs
        exact .symbol ..
  | _ =>
    cases hr
    cases hs
    exact .refl _

/-- **Two values of one term are evaluated alike**, in every scope. -/
theorem Term.gives_parallel (term : Term) {v w : Value} (hv : term.Gives store scope v)
    (hw : term.Gives store scope w) : Parallel store v w := by
  have hrelates : Term.Relates store scope (Parallel store) :=
    ⟨.refl, Leaf.gives_parallel, fun hall hr hs => Operator.build_parallel hall hr hs⟩
  exact hrelates.gives term hv hw

end LiveTemplate
