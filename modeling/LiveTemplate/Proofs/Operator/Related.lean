import LiveTemplate.Proofs.Library.Call
import LiveTemplate.Proofs.Value.Search
/-!
# Operators do not tell like operands apart

Whatever is blurred, every operator of the language gives like results for like operands.  First
those that take evaluated operands, and then `applyTo`, which runs the computations of its operands
itself: if these computations are related pair by pair, so are the two applications.  The lazy
operators need no argument of their own kind, because the values that decide which operand is run
next are like each other.

Values up to the references that a template hands out are the first use of this.
-/

set_option autoImplicit false

namespace LiveTemplate

open Value
open Run (Related)

namespace Operator

variable {store : Store} (B : Blur store) {link : Effects → Effects → Prop}

/-! ## Evaluated operands -/

/-- Does the operator make a scalar of scalars?  The others take values apart or put them
together. -/
def isScalar : Operator → Bool
  | .field | .index | .call | .array | .map | .merge => false
  | _ => true

theorem applyStrict_outline {op : Operator} (h : op.isScalar = true) (operands : List Value) :
    op.applyStrict store (operands.map outline) = op.applyStrict store operands := by
  cases op
  case field | index | call | array | map | merge => cases h
  all_goals
    rcases operands with _ | ⟨x, _ | ⟨y, _ | ⟨z, rest⟩⟩⟩ <;>
      simp only [List.map_cons, List.map_nil, applyStrict, plus_outline, negate_outline,
        truthy_outline, multiply_outline, divideBy_outline, add_outline, subtract_outline,
        less_outline, greater_outline, lessEqual_outline, greaterEqual_outline, equal_outline,
        notEqual_outline]

theorem steady_scalar {op : Operator} (h : op.isScalar = true) (operands : List Value) :
    Library.Steady B link (op.applyStrict store operands) := by
  cases op
  case field | index | call | array | map | merge => cases h
  all_goals
    unfold applyStrict
    split <;> first | exact .pure rfl | contradiction

variable {B}

/-- A call is related to one with a like callee and a like list of arguments. -/
theorem call_related (hl : Effects.Loose link) {callee callee' args args' : Value}
    (hcallee : B.Like callee callee') (hargs : B.Like args args')
    (hi : callee.isImpureFunction = false ∨ Effects.Exact link) (hcomparable : B.Comparable args) :
    Related link Run.Never B.Like (callee.call store (args.items store))
      (callee'.call store (args'.items store)) := by
  rw [← call_outline store callee', ← hcallee.outline, call_outline]
  cases callee with
  | function ref builtin =>
    refine Library.call_related hl ref builtin (hi.imp_left fun h => ?_) hargs.items
      fun _ hv => B.comparable_items hcomparable hv
    simpa [isImpureFunction] using h
  | easing ref curve =>
    have hitems := Blur.likeAll_iff.mp hargs.items
    revert hitems
    generalize args.items store = xs, args'.items store = ys
    rintro (_ | ⟨ht, _ | ⟨_, _⟩⟩)
    · exact .pure rfl
    · exact .pure (congrArg (fun x => B.blur (number (curve.progress x))) (ht.congr toNumber_outline))
    · exact .pure rfl
  | _ => exact .pure rfl

/-- **Evaluated operands.**  Like operands give like results. -/
theorem applyStrict_related (hl : Effects.Loose link) (op : Operator) {xs ys : List Value}
    (h : B.LikeAll xs ys)
    (hi : (op = .call → ∀ v ∈ xs, v.isImpureFunction = false) ∨ Effects.Exact link)
    (hcomparable : ∀ v ∈ xs, B.Comparable v) :
    Related link Run.Never B.Like (op.applyStrict store xs) (op.applyStrict store ys) := by
  by_cases hop : op.isScalar = true
  · rw [h.congr (applyStrict_outline hop)]
    exact steady_scalar B hop ys
  · have hpairs := Blur.likeAll_iff.mp h
    cases op
    case array => exact Library.array_related B hl h
    case merge => exact .pure h.mergeAll
    case field =>
      rcases hpairs with _ | ⟨ha, _ | ⟨hb, _ | ⟨_, _⟩⟩⟩
      · exact .pure rfl
      · exact .pure rfl
      · exact .pure (ha.selectField hb)
      · exact .pure rfl
    case index =>
      rcases hpairs with _ | ⟨ha, _ | ⟨hb, _ | ⟨_, _⟩⟩⟩
      · exact .pure rfl
      · exact .pure rfl
      · exact .pure (ha.selectIndex hb)
      · exact .pure rfl
    case call =>
      rcases hpairs with _ | ⟨ha, _ | ⟨hb, _ | ⟨_, _⟩⟩⟩
      · exact .pure rfl
      · exact .pure rfl
      · simp only [applyStrict, hb.kind]
        split
        · exact call_related hl ha hb (hi.imp_left fun h => h rfl _ (by simp))
            (hcomparable _ (by simp))
        · exact .pure rfl
      · exact .pure rfl
    case map =>
      rcases hpairs with _ | ⟨ha, _ | ⟨_, _⟩⟩
      · exact .pure rfl
      · simp only [applyStrict, ha.kind]
        split
        · refine Library.map_related B hl ?_
          show List.map _ _ = List.map _ _
          rw [← Json.sortFields_map, ← Json.sortFields_map, show List.map _ _ = _ from ha.items.pairUp]
        · exact .pure rfl
      · exact .pure rfl
    all_goals exact absurd rfl hop

/-! ## Computations of operands -/

variable {R : Value → Value → Prop}

theorem runAll_related {lone : Fault → Prop} {cs ds : List (Run Value)}
    (h : List.Forall₂ (Related link lone R) cs ds) :
    Related link lone (List.Forall₂ R) (runAll cs) (runAll ds) := by
  induction h with
  | nil => exact .pure .nil
  | cons hcd _ ih => exact hcd.bind fun _ _ hR => ih.bind fun _ _ hrest => .pure (.cons hR hrest)

theorem related_lazy {lone : Fault → Prop} {c d c' d' : Run Value} {condition : Bool}
    (h : Related link lone R c c') (k : Related link lone R d d') :
    Related link lone R (if condition then c else d) (if condition then c' else d') := by
  cases condition with
  | true => exact h
  | false => exact k

theorem forall_left {β : Type} {R : Value → β → Prop} {P : Value → Prop} {xs : List Value}
    {ys : List β} (h : List.Forall₂ R xs ys) (hP : ∀ a b, R a b → P a) : ∀ v ∈ xs, P v :=
  ((List.forall₂_and_left xs ys).mp (h.imp fun a b hab => ⟨hP a b hab, hab⟩)).1

/-- The value of the left side, or else of the right one. -/
theorem coalesce_related {a b : Value} {c d : Run Value} (h : Related link Run.Never B.Like c d) :
    B.Like a b → Related link Run.Never B.Like
      (match a with
        | .null => c
        | left => pure left)
      (match b with
        | .null => d
        | left => pure left) := by
  intro hab
  have hother : ∀ (v : Value) (c : Run Value), v ≠ .null → (match v with
      | .null => c
      | left => pure left) = pure v := by
    intro v c hv
    cases v <;> first | rfl | exact absurd rfl hv
  by_cases hnull : a = .null
  · subst hnull
    obtain rfl : b = .null := hab.symm.eq_of_scalar rfl (by simp)
    exact h
  · have hnull' : b ≠ .null := by
      rintro rfl
      exact hnull (hab.eq_of_scalar rfl (by simp))
    rw [hother a c hnull, hother b d hnull']
    exact .pure hab

variable (B)

/-- **Computations of operands.**  An operator on related computations gives like results, where
related computations end in like values of which the first is comparable. -/
theorem applyTo_related (hl : Effects.Loose link) (op : Operator)
    (hR : ∀ a b, R a b → B.Like a b ∧ B.Comparable a)
    (hi : (op = .call → ∀ a b, R a b → a.isImpureFunction = false) ∨ Effects.Exact link)
    {cs ds : List (Run Value)} (h : List.Forall₂ (Related link Run.Never R) cs ds) :
    Related link Run.Never B.Like (op.applyTo store cs) (op.applyTo store ds) := by
  have hlike : ∀ {c d}, Related link Run.Never R c d → Related link Run.Never B.Like c d :=
    fun hcd => hcd.mono fun a b hab => (hR a b hab).1
  have hstrict : Related link Run.Never B.Like
      (if op.arity.accepts cs.length then do op.applyStrict store (← runAll cs) else pure .null)
      (if op.arity.accepts ds.length then do op.applyStrict store (← runAll ds) else pure .null) := by
    rw [h.length_eq]
    refine related_lazy ((runAll_related h).bind fun xs ys hxy => ?_) (.pure rfl)
    refine applyStrict_related hl op
      (Blur.likeAll_iff.mpr (hxy.imp fun a b hab => (hR a b hab).1)) ?_ ?_
    · exact hi.imp_left fun hcall hop => forall_left hxy fun a b hab => hcall hop a b hab
    · exact forall_left hxy fun a b hab => (hR a b hab).2
  cases op
  case choose =>
    rcases h with _ | ⟨hc, _ | ⟨ht, _ | ⟨hf, _ | ⟨_, _⟩⟩⟩⟩
    · exact hstrict
    · exact hstrict
    · exact hstrict
    · refine hc.bind fun a b hab => ?_
      rw [(hR a b hab).1.congr truthy_outline]
      exact related_lazy (hlike ht) (hlike hf)
    · exact hstrict
  case and =>
    rcases h with _ | ⟨ha, _ | ⟨hb, _ | ⟨_, _⟩⟩⟩
    · exact hstrict
    · exact hstrict
    · refine ha.bind fun a b hab => ?_
      rw [(hR a b hab).1.congr truthy_outline]
      exact related_lazy (hlike hb) (.pure (hR a b hab).1)
    · exact hstrict
  case or =>
    rcases h with _ | ⟨ha, _ | ⟨hb, _ | ⟨_, _⟩⟩⟩
    · exact hstrict
    · exact hstrict
    · refine ha.bind fun a b hab => ?_
      rw [(hR a b hab).1.congr truthy_outline]
      exact related_lazy (.pure (hR a b hab).1) (hlike hb)
    · exact hstrict
  case coalesce =>
    rcases h with _ | ⟨ha, _ | ⟨hb, _ | ⟨_, _⟩⟩⟩
    · exact hstrict
    · exact hstrict
    · exact ha.bind fun a b hab => coalesce_related (hlike hb) (hR a b hab).1
    · exact hstrict
  all_goals exact hstrict

/-- **Operands.**  The same of values, if their evaluations are related. -/
theorem apply_related (hl : Effects.Loose link) (op : Operator)
    (hR : ∀ a b, R a b → B.Like a b ∧ B.Comparable a)
    (hi : (op = .call → ∀ a b, R a b → a.isImpureFunction = false) ∨ Effects.Exact link)
    {xs ys : List Value}
    (h : List.Forall₂ (fun v w => Related link Run.Never R (v.eval store) (w.eval store)) xs ys) :
    Related link Run.Never B.Like (op.apply store xs) (op.apply store ys) := by
  refine applyTo_related B hl op hR hi ?_
  rwa [evaluations_eq_map, evaluations_eq_map, List.forall₂_map_left_iff, List.forall₂_map_right_iff]

end Operator

/-! ## Values up to references -/

/-- Forget the references that a template hands out. -/
def Value.shapes (store : Store) : Blur store where
  blur := shape
  outline v := by cases v <;> rfl
  items := items_shape store
  entries := entries_shape store
  array := alike_array
  map := alike_map
  Comparable v := v.reachesEvaluable store = false
  comparable_items := free_item
  same := same_alike store

theorem Value.isImpureFunction_of_isPure {store : Store} {v : Value} (h : v.isPure store = true) :
    v.isImpureFunction = false := isPure_iff.mp h v .refl

end LiveTemplate
