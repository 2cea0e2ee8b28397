import LiveTemplate.Expression.Region
import LiveTemplate.Proofs.Run.Related
/-!
# The machine of regions does not look at operands

What the machine does with its regions depends on the operators in them, on the number of the
operands, and on what the builder answers; the operands themselves are only moved about.  So two
machines with different kinds of operands, told to take the same steps, go the same way as long as
their builders do.  That is the parametricity theorem `Regions.run_related`, and all comparisons
of two readings of a template are instances of it: the machine on values against the machine on
syntax trees, and the machine in one scope against the machine in another.

Two regions *correspond* by a relation `Q` on operands if they have the same operators and
operands that `Q` relates place by place.
-/

set_option autoImplicit false

namespace LiveTemplate

variable {α β : Type}

/-! ## Corresponding states -/

/-- Related operands in the same places, and the same operators. -/
structure Region.Corresponds (Q : α → β → Prop) (r : Region α) (s : Region β) : Prop where
  operands : List.Forall₂ Q r.operands s.operands
  operators : r.operators = s.operators

/-- Corresponding regions, one inside the other in the same way. -/
structure Regions.Corresponds (Q : α → β → Prop) (r : Regions α) (s : Regions β) : Prop where
  current : Region.Corresponds Q r.current s.current
  outer : List.Forall₂ (Region.Corresponds Q) r.outer s.outer

/-- The same step, with related operands where one is pushed. -/
inductive Step.Corresponds (Q : α → β → Prop) : Step α → Step β → Prop
  | push {a : α} {b : β} (h : Q a b) : Corresponds Q (.push a) (.push b)
  | operator (op : Operator) : Corresponds Q (.operator op) (.operator op)
  | foldLeft (rank : Rank) : Corresponds Q (.foldLeft rank) (.foldLeft rank)
  | foldUnary (rank : Rank) : Corresponds Q (.foldUnary rank) (.foldUnary rank)
  | foldNewest (rank : Rank) : Corresponds Q (.foldNewest rank) (.foldNewest rank)
  | foldRight (rank : Rank) : Corresponds Q (.foldRight rank) (.foldRight rank)
  | foldChoice : Corresponds Q .foldChoice .foldChoice
  | enter : Corresponds Q .enter .enter
  | leave (mode : Combine) : Corresponds Q (.leave mode) (.leave mode)

/-- Two builders that give related results for related operands. -/
structure Builder.Corresponds (link : Effects → Effects → Prop) (lone : Fault → Prop)
    (Q : α → β → Prop) (a : Builder α) (b : Builder β) : Prop where
  blank : Q a.blank b.blank
  build : ∀ (op : Operator) {xs : List α} {ys : List β}, List.Forall₂ Q xs ys →
    Run.Related link lone Q (a.build op xs) (b.build op ys)

theorem Regions.empty_corresponds (Q : α → β → Prop) :
    Regions.Corresponds Q Regions.empty Regions.empty := ⟨⟨.nil, rfl⟩, .nil⟩

namespace Region

variable {link : Effects → Effects → Prop} {lone : Fault → Prop} {Q : α → β → Prop}
  {a : Builder α} {b : Builder β}

open Run (Related)

theorem Corresponds.push {r : Region α} {s : Region β} (h : Corresponds Q r s) {x : α} {y : β}
    (hxy : Q x y) : Corresponds Q (r.push x) (s.push y) := ⟨.cons hxy h.operands, h.operators⟩

theorem Corresponds.pushOperator {r : Region α} {s : Region β} (h : Corresponds Q r s)
    (op : Operator) : Corresponds Q (r.pushOperator op) (s.pushOperator op) :=
  ⟨h.operands, congrArg (op :: ·) h.operators⟩

/-! ## Folds -/

theorem foldChain_related (hb : Builder.Corresponds link lone Q a b) :
    ∀ (ops : List Operator) {x : α} {y : β} {xs : List α} {ys : List β}, Q x y →
      List.Forall₂ Q xs ys → Related link lone Q (foldChain a x ops xs) (foldChain b y ops ys)
  | [], _, _, _, _, hxy, _ => .pure hxy
  | _ :: _, _, _, [], [], hxy, .nil => .pure hxy
  | op :: ops, _, _, _ :: _, _ :: _, hxy, .cons h hs =>
    (hb.build op (.cons hxy (.cons h .nil))).bind fun _ _ hfolded =>
      foldChain_related hb ops hfolded hs

theorem foldLeft_related (hb : Builder.Corresponds link lone Q a b) (rank : Rank) {r : Region α}
    {s : Region β} (h : Corresponds Q r s) :
    Related link lone (Corresponds Q) (r.foldLeft a rank) (s.foldLeft b rank) := by
  unfold foldLeft
  rw [h.operators]
  generalize s.operators.takeWhile (fun op => op.rank == rank) = run
  by_cases hrun : run.isEmpty
  · simp only [hrun, if_true]
    exact .pure h
  · simp only [hrun]
    have hdrop := List.forall₂_drop run.length h.operands
    have htake := List.rel_reverse (List.forall₂_take run.length h.operands)
    rw [h.operands.length_eq]
    revert hdrop
    generalize r.operands.drop run.length = xs, s.operands.drop run.length = ys
    intro hdrop
    cases hdrop with
    | nil => exact .throw _
    | cons hleft holder =>
      exact (foldChain_related hb run.reverse hleft htake).bind fun _ _ hfolded =>
        .pure ⟨.cons hfolded holder, rfl⟩

theorem foldUnaryRun_related (hb : Builder.Corresponds link lone Q a b) :
    ∀ (ops : List Operator) {xs : List α} {ys : List β}, List.Forall₂ Q xs ys →
      Related link lone (List.Forall₂ Q) (foldUnaryRun a ops xs) (foldUnaryRun b ops ys)
  | [], _, _, h => .pure h
  | _ :: _, [], [], .nil => .throw _
  | op :: ops, _ :: _, _ :: _, .cons h hs =>
    (hb.build op (.cons h .nil)).bind fun _ _ hbuilt => foldUnaryRun_related hb ops (.cons hbuilt hs)

theorem foldUnary_related (hb : Builder.Corresponds link lone Q a b) (rank : Rank) {r : Region α}
    {s : Region β} (h : Corresponds Q r s) :
    Related link lone (Corresponds Q) (r.foldUnary a rank) (s.foldUnary b rank) := by
  unfold foldUnary
  rw [h.operators]
  exact (foldUnaryRun_related hb _ h.operands).bind fun _ _ hfolded => .pure ⟨hfolded, rfl⟩

theorem foldPair_related (hb : Builder.Corresponds link lone Q a b) (op : Operator) {xs : List α}
    {ys : List β} (h : List.Forall₂ Q xs ys) :
    Related link lone (List.Forall₂ Q) (foldPair a op xs) (foldPair b op ys) := by
  cases h with
  | nil => exact .throw _
  | cons hright hrest => cases hrest with
    | nil => exact .throw _
    | cons hleft holder =>
      exact (hb.build op (.cons hleft (.cons hright .nil))).bind fun _ _ hbuilt =>
        .pure (.cons hbuilt holder)

theorem foldNewest_related (hb : Builder.Corresponds link lone Q a b) (rank : Rank) {r : Region α}
    {s : Region β} (h : Corresponds Q r s) :
    Related link lone (fun p q => Corresponds Q p.1 q.1) (r.foldNewest a rank)
      (s.foldNewest b rank) := by
  obtain ⟨xs, ops⟩ := r
  obtain ⟨ys, ops'⟩ := s
  obtain rfl : ops = ops' := h.operators
  unfold foldNewest
  cases ops with
  | nil => exact .pure h
  | cons op older =>
    by_cases hrank : (op.rank == rank) = true
    · simp only [hrank, if_true]
      exact (foldPair_related hb op h.operands).bind fun _ _ hfolded => .pure ⟨hfolded, rfl⟩
    · simp only [hrank]
      exact .pure h

theorem foldRightRun_related (hb : Builder.Corresponds link lone Q a b) :
    ∀ (ops : List Operator) {xs : List α} {ys : List β}, List.Forall₂ Q xs ys →
      Related link lone (List.Forall₂ Q) (foldRightRun a ops xs) (foldRightRun b ops ys)
  | [], _, _, h => .pure h
  | op :: ops, _, _, h =>
    (foldPair_related hb op h).bind fun _ _ hfolded => foldRightRun_related hb ops hfolded

theorem foldRight_related (hb : Builder.Corresponds link lone Q a b) (rank : Rank) {r : Region α}
    {s : Region β} (h : Corresponds Q r s) :
    Related link lone (Corresponds Q) (r.foldRight a rank) (s.foldRight b rank) := by
  unfold foldRight
  rw [h.operators]
  exact (foldRightRun_related hb _ h.operands).bind fun _ _ hfolded => .pure ⟨hfolded, rfl⟩

theorem foldChoice_related (hb : Builder.Corresponds link lone Q a b) (rank : Rank) {r : Region α}
    {s : Region β} (h : Corresponds Q r s) :
    Related link lone (Corresponds Q) (r.foldChoice a rank) (s.foldChoice b rank) := by
  obtain ⟨xs, ops⟩ := r
  obtain ⟨ys, ops'⟩ := s
  obtain rfl : ops = ops' := h.operators
  have hoperands : List.Forall₂ Q xs ys := h.operands
  unfold foldChoice
  rcases ops with _ | ⟨second, _ | ⟨first, older⟩⟩
  · exact .throw _
  · exact .throw _
  · by_cases hranks : (second.rank == rank && first.rank == rank) = true
    · simp only [hranks, if_true]
      rcases hoperands with _ | ⟨hf, _ | ⟨ht, _ | ⟨hc, hrest⟩⟩⟩
      · exact .throw _
      · exact .throw _
      · exact .throw _
      · exact (hb.build .choose (.cons hc (.cons ht (.cons hf .nil)))).bind fun _ _ hbuilt =>
          .pure ⟨.cons hbuilt hrest, rfl⟩
    · simp only [hranks]
      exact .throw _

theorem combine_related (hb : Builder.Corresponds link lone Q a b) (mode : Combine) {r : Region α}
    {s : Region β} (h : Corresponds Q r s) :
    Related link lone Q (r.combine a mode) (s.combine b mode) := by
  obtain ⟨xs, ops⟩ := r
  obtain ⟨ys, ops'⟩ := s
  obtain rfl : ops = ops' := h.operators
  have hoperands : List.Forall₂ Q xs ys := h.operands
  unfold combine
  by_cases hops : ops.isEmpty
  · simp only [hops, Bool.not_true, Bool.false_eq_true, if_false]
    cases mode with
    | text =>
      rcases hoperands with _ | ⟨hx, _ | ⟨hy, hrest⟩⟩
      · exact .pure hb.blank
      · exact .pure hx
      · exact hb.build .merge (List.rel_reverse (.cons hx (.cons hy hrest)))
    | list => exact hb.build .array (List.rel_reverse hoperands)
    | single =>
      rcases hoperands with _ | ⟨hx, _ | ⟨hy, hrest⟩⟩
      · exact .throw _
      · exact .pure hx
      · simp only [List.length_cons, hrest.length_eq]
        exact .throw _
  · simp only [hops, Bool.not_false, if_true, Run.throw_bind]
    exact .throw _

end Region

/-! ## Steps and runs -/

namespace Regions

variable {link : Effects → Effects → Prop} {lone : Fault → Prop} {Q : α → β → Prop}
  {a : Builder α} {b : Builder β}

open Run (Related)

theorem Corresponds.enter {r : Regions α} {s : Regions β} (h : Corresponds Q r s) :
    Corresponds Q r.enter s.enter := ⟨⟨.nil, rfl⟩, .cons h.current h.outer⟩

theorem inCurrent_related {r : Regions α} {s : Regions β} (h : Corresponds Q r s)
    (change : Region α → Run (Region α)) (change' : Region β → Run (Region β))
    (hc : Related link lone (Region.Corresponds Q) (change r.current) (change' s.current)) :
    Related link lone (Corresponds Q) (r.inCurrent change) (s.inCurrent change') :=
  hc.bind fun _ _ hcurrent => .pure ⟨hcurrent, h.outer⟩

theorem leave_related (hb : Builder.Corresponds link lone Q a b) (mode : Combine) {r : Regions α}
    {s : Regions β} (h : Corresponds Q r s) :
    Related link lone (Corresponds Q) (r.leave a mode) (s.leave b mode) := by
  obtain ⟨current, outer⟩ := r
  obtain ⟨current', outer'⟩ := s
  have houter : List.Forall₂ (Region.Corresponds Q) outer outer' := h.outer
  unfold leave
  cases houter with
  | nil => exact .throw _
  | cons haround hrest =>
    exact (Region.combine_related hb mode h.current).bind fun _ _ hxy =>
      .pure ⟨haround.push hxy, hrest⟩

theorem finish_related (hb : Builder.Corresponds link lone Q a b) {r : Regions α} {s : Regions β}
    (h : Corresponds Q r s) : Related link lone Q (r.finish a) (s.finish b) := by
  obtain ⟨current, outer⟩ := r
  obtain ⟨current', outer'⟩ := s
  have houter : List.Forall₂ (Region.Corresponds Q) outer outer' := h.outer
  unfold finish
  cases houter with
  | nil => exact Region.combine_related hb .text h.current
  | cons _ _ => exact .throw _

theorem step_related (hb : Builder.Corresponds link lone Q a b) {r : Regions α} {s : Regions β}
    (h : Corresponds Q r s) {p : Step α} {q : Step β} (hpq : Step.Corresponds Q p q) :
    Related link lone (Corresponds Q) (r.step a p) (s.step b q) := by
  cases hpq with
  | push hxy =>
    exact inCurrent_related h (fun region => pure (region.push _)) (fun region => pure (region.push _))
      (.pure (h.current.push hxy))
  | operator op =>
    exact inCurrent_related h (fun region => pure (region.pushOperator op))
      (fun region => pure (region.pushOperator op)) (.pure (h.current.pushOperator op))
  | foldLeft rank => exact inCurrent_related h _ _ (Region.foldLeft_related hb rank h.current)
  | foldUnary rank => exact inCurrent_related h _ _ (Region.foldUnary_related hb rank h.current)
  | foldNewest rank =>
    refine inCurrent_related h (fun region => do return (← region.foldNewest a rank).1)
      (fun region => do return (← region.foldNewest b rank).1) ?_
    exact (Region.foldNewest_related hb rank h.current).bind fun _ _ hfolded => .pure hfolded
  | foldRight rank => exact inCurrent_related h _ _ (Region.foldRight_related hb rank h.current)
  | foldChoice => exact inCurrent_related h _ _ (Region.foldChoice_related hb .choice h.current)
  | enter => exact .pure h.enter
  | leave mode => exact leave_related hb mode h

/-- **Parametricity.**  Machines with corresponding builders keep corresponding when they take
corresponding steps. -/
theorem run_related (hb : Builder.Corresponds link lone Q a b) :
    ∀ {steps : List (Step α)} {steps' : List (Step β)}, List.Forall₂ (Step.Corresponds Q) steps steps' →
      ∀ {r : Regions α} {s : Regions β}, Corresponds Q r s →
        Related link lone (Corresponds Q) (r.run a steps) (s.run b steps')
  | [], [], .nil, _, _, h => .pure h
  | _ :: _, _ :: _, .cons hstep hsteps, _, _, h =>
    (step_related hb h hstep).bind fun _ _ hnext => run_related hb hsteps hnext

/-! ## Running in parts -/

theorem run_append (builder : Builder α) (first second : List (Step α)) (regions : Regions α) :
    regions.run builder (first ++ second)
      = regions.run builder first >>= fun middle => middle.run builder second := by
  induction first generalizing regions with
  | nil => simp [Regions.run]
  | cons s rest ih => simp [Regions.run, ih]

end Regions

end LiveTemplate
