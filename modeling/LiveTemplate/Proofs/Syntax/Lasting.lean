import LiveTemplate.Proofs.Syntax.Term
/-!
# Nothing that was read is dropped

The machine on terms moves operands about and puts operators on them, and it never drops one: what
it holds at the end has in it everything that it held on the way.  So if a property of terms passes
from a term to its operands, and all terms at the end have it, all terms on the way have had it.

Hence a builder that refuses terms without the property, and otherwise does what the machine on
terms does, goes the whole way together with it.  A builder that may refuse is what a builder on
values looks like from here.
-/

set_option autoImplicit false

namespace LiveTemplate

theorem Run.pure_inj {α : Type} {a b : α} (h : (pure a : Run α) = pure b) : a = b := by
  have hrun := congrArg (fun c : Run α => (c.run ⟨0, 0, []⟩).1) h
  exact Except.ok.inj hrun

theorem Run.throw_ne_pure {α : Type} {fault : Fault} {a : α} : (throw fault : Run α) ≠ pure a := by
  intro h
  have hrun := congrArg (fun c : Run α => (c.run ⟨0, 0, []⟩).1) h
  cases hrun

/-- The computation breaks off or ends in a result, whatever the effects, and leaves them alone. -/
def Run.Settled {α : Type} (c : Run α) : Prop := (∃ fault, c = throw fault) ∨ ∃ a, c = pure a

theorem Run.Settled.of_bind {α β : Type} {c : Run α} {next : α → Run β} {last : β} (hc : Settled c)
    (h : c >>= next = pure last) : ∃ a, c = pure a ∧ next a = pure last := by
  rcases hc with ⟨fault, rfl⟩ | ⟨a, rfl⟩
  · exact absurd h throw_ne_pure
  · exact ⟨a, rfl, h⟩

/-- These two are the effects. -/
def Effects.Are (a b e f : Effects) : Prop := e = a ∧ f = b

/-- A computation that is related to itself, each time in whatever effects, is settled. -/
theorem Run.Related.settled {α : Type} {R : α → α → Prop} {c : Run α} (hR : ∀ x y, R x y → x = y)
    (h : ∀ a b, Related (Effects.Are a b) Never R c c) : Settled c := by
  let first : Effects := ⟨0, 0, []⟩
  have hsame : ∀ e, c.run e = ((c.run first).1, e) := by
    intro e
    have hp := h first e first e ⟨rfl, rfl⟩
    revert hp
    generalize c.run first = one, c.run e = other
    intro hp
    cases hp with
    | values hvw hlink => rw [hR _ _ hvw, hlink.2]
    | faults hlink => rw [hlink.2]
    | alone hx => exact hx.elim
  rcases hfirst : (c.run first).1 with fault | v
  · exact .inl ⟨fault, funext fun e => (hsame e).trans (by rw [hfirst]; rfl)⟩
  · exact .inr ⟨v, funext fun e => (hsame e).trans (by rw [hfirst]; rfl)⟩

theorem Term.builder_same (a b : Effects) :
    Builder.Corresponds (Effects.Are a b) Run.Never Eq Term.builder Term.builder where
  blank := rfl
  build op xs ys h := by
    rw [List.forall₂_eq_eq_eq] at h
    exact .pure (by rw [h])

/-- The builder makes the terms that have the property, of operands that have it as well. -/
structure Builder.Admits (P : Term → Prop) (builder : Builder Term) : Prop where
  blank : builder.blank = Term.builder.blank
  operands : ∀ {op operands}, P (.apply op operands) → ∀ term ∈ operands, P term
  build : ∀ {op operands}, P (.apply op operands) →
    builder.build op operands = pure (.apply op operands)

theorem eqs_refl {α : Type} (xs : List α) : List.Forall₂ Eq xs xs := by rw [List.forall₂_eq_eq_eq]

theorem eq_of_eqs {α : Type} (xs ys : List α) (h : List.Forall₂ Eq xs ys) : xs = ys := by
  rwa [List.forall₂_eq_eq_eq] at h

namespace Region

theorem corresponds_eq (r s : Region Term) (h : Corresponds Eq r s) : r = s := by
  obtain ⟨xs, ops⟩ := r
  obtain ⟨ys, ops'⟩ := s
  obtain rfl : ops = ops' := h.operators
  obtain rfl : xs = ys := eq_of_eqs _ _ h.operands
  rfl

theorem corresponds_refl (r : Region Term) : Corresponds Eq r r := ⟨eqs_refl _, rfl⟩

/-! The machine on terms does not look at effects. -/

theorem foldChain_settled (left : Term) (ops : List Operator) (rights : List Term) :
    Run.Settled (foldChain Term.builder left ops rights) :=
  Run.Related.settled (fun _ _ h => h) fun a b =>
    foldChain_related (Term.builder_same a b) ops rfl (eqs_refl rights)

theorem foldUnaryRun_settled (ops : List Operator) (operands : List Term) :
    Run.Settled (foldUnaryRun Term.builder ops operands) :=
  Run.Related.settled eq_of_eqs fun a b =>
    foldUnaryRun_related (Term.builder_same a b) ops (eqs_refl operands)

theorem foldPair_settled (op : Operator) (operands : List Term) :
    Run.Settled (foldPair Term.builder op operands) :=
  Run.Related.settled eq_of_eqs fun a b =>
    foldPair_related (Term.builder_same a b) op (eqs_refl operands)

theorem foldRightRun_settled (ops : List Operator) (operands : List Term) :
    Run.Settled (foldRightRun Term.builder ops operands) :=
  Run.Related.settled eq_of_eqs fun a b =>
    foldRightRun_related (Term.builder_same a b) ops (eqs_refl operands)

theorem foldLeft_settled (rank : Rank) (region : Region Term) :
    Run.Settled (region.foldLeft Term.builder rank) :=
  Run.Related.settled corresponds_eq fun a b =>
    foldLeft_related (Term.builder_same a b) rank (corresponds_refl region)

theorem foldUnary_settled (rank : Rank) (region : Region Term) :
    Run.Settled (region.foldUnary Term.builder rank) :=
  Run.Related.settled corresponds_eq fun a b =>
    foldUnary_related (Term.builder_same a b) rank (corresponds_refl region)

theorem foldRight_settled (rank : Rank) (region : Region Term) :
    Run.Settled (region.foldRight Term.builder rank) :=
  Run.Related.settled corresponds_eq fun a b =>
    foldRight_related (Term.builder_same a b) rank (corresponds_refl region)

theorem foldChoice_settled (rank : Rank) (region : Region Term) :
    Run.Settled (region.foldChoice Term.builder rank) :=
  Run.Related.settled corresponds_eq fun a b =>
    foldChoice_related (Term.builder_same a b) rank (corresponds_refl region)

theorem foldNewest_settled (rank : Rank) (region : Region Term) :
    Run.Settled (do return (← region.foldNewest Term.builder rank).1) :=
  Run.Related.settled corresponds_eq fun a b =>
    (foldNewest_related (Term.builder_same a b) rank (corresponds_refl region)).bind
      fun _ _ hfolded => .pure hfolded

theorem combine_settled (mode : Combine) (region : Region Term) :
    Run.Settled (region.combine Term.builder mode) :=
  Run.Related.settled (fun _ _ h => h) fun a b =>
    combine_related (Term.builder_same a b) mode (corresponds_refl region)

end Region

namespace Regions

theorem corresponds_eq (r s : Regions Term) (h : Corresponds Eq r s) : r = s := by
  obtain ⟨current, outer⟩ := r
  obtain ⟨current', outer'⟩ := s
  obtain rfl : current = current' := Region.corresponds_eq _ _ h.current
  obtain rfl : outer = outer' := eq_of_eqs _ _ (h.outer.imp Region.corresponds_eq)
  rfl

theorem corresponds_refl (r : Regions Term) : Corresponds Eq r r := by
  refine ⟨Region.corresponds_refl _, ?_⟩
  rw [List.forall₂_same]
  exact fun region _ => Region.corresponds_refl region

theorem step_settled (regions : Regions Term) (step : Step Term) :
    Run.Settled (regions.step Term.builder step) := by
  refine Run.Related.settled corresponds_eq fun a b => ?_
  refine step_related (Term.builder_same a b) (corresponds_refl regions) ?_
  cases step with
  | push operand => exact .push rfl
  | operator op => exact .operator op
  | foldLeft rank => exact .foldLeft rank
  | foldUnary rank => exact .foldUnary rank
  | foldNewest rank => exact .foldNewest rank
  | foldRight rank => exact .foldRight rank
  | foldChoice => exact .foldChoice
  | enter => exact .enter
  | leave mode => exact .leave mode

end Regions

/-- All operands have the property. -/
def Region.All (P : Term → Prop) (region : Region Term) : Prop := ∀ term ∈ region.operands, P term

/-- All operands of all regions have the property. -/
structure Regions.All (P : Term → Prop) (regions : Regions Term) : Prop where
  current : regions.current.All P
  outer : ∀ region ∈ regions.outer, region.All P

section

variable {P : Term → Prop} {builder : Builder Term} (h : builder.Admits P)

include h

theorem Builder.Admits.pair {op : Operator} {left right : Term}
    (hp : P (.apply op [left, right])) : P left ∧ P right := by
  simpa using h.operands hp

/-! ## Folds -/

namespace Region

theorem foldChain_back {ops : List Operator} {left last : Term} {rights : List Term}
    (hlength : ops.length = rights.length)
    (hfold : foldChain Term.builder left ops rights = pure last) (hlast : P last) :
    P left ∧ (∀ term ∈ rights, P term) ∧ foldChain builder left ops rights = pure last := by
  induction ops generalizing left rights with
  | nil =>
    obtain rfl : rights = [] := List.length_eq_zero_iff.mp hlength.symm
    obtain rfl : left = last := Run.pure_inj hfold
    exact ⟨hlast, by simp, rfl⟩
  | cons op ops ih =>
    rcases rights with _ | ⟨right, rest⟩
    · cases hlength
    · have hlength' : ops.length = rest.length := by simpa using hlength
      obtain ⟨happly, hrest, hfolded⟩ := ih hlength' hfold
      obtain ⟨hleft, hright⟩ := h.pair happly
      refine ⟨hleft, by simpa using ⟨hright, hrest⟩, ?_⟩
      rw [foldChain, h.build happly, pure_bind, hfolded]

theorem foldLeft_back {rank : Rank} {region last : Region Term}
    (hfold : region.foldLeft Term.builder rank = pure last) (hlast : last.All P) :
    region.All P ∧ region.foldLeft builder rank = pure last := by
  obtain ⟨operands, operators⟩ := region
  unfold foldLeft at hfold ⊢
  dsimp only at hfold ⊢
  generalize operators.takeWhile (fun op => op.rank == rank) = run at hfold ⊢
  by_cases hrun : run.isEmpty = true
  · rw [if_pos hrun] at hfold ⊢
    obtain rfl := Run.pure_inj hfold
    exact ⟨hlast, rfl⟩
  · rw [if_neg hrun] at hfold ⊢
    -- the operands are those of the run, the one before them, and older ones
    rcases hdrop : operands.drop run.length with _ | ⟨left, older⟩
    · rw [hdrop] at hfold
      exact absurd hfold Run.throw_ne_pure
    · rw [hdrop] at hfold
      have hlong : run.length < operands.length := by
        by_contra hshort
        rw [List.drop_eq_nil_of_le (Nat.le_of_not_lt hshort)] at hdrop
        cases hdrop
      have hlength : run.reverse.length = ((operands.take run.length).reverse).length := by
        simp [Nat.min_eq_left (Nat.le_of_lt hlong)]
      dsimp only at hfold ⊢
      obtain ⟨folded, hfolded, hrest⟩ := (foldChain_settled _ _ _).of_bind hfold
      obtain rfl := Run.pure_inj hrest
      obtain ⟨hleft, hrights, hback⟩ :=
        foldChain_back h hlength hfolded (hlast folded List.mem_cons_self)
      refine ⟨fun term hterm => ?_, by rw [hback]; rfl⟩
      have hparts : term ∈ operands.take run.length ++ operands.drop run.length := by
        rwa [List.take_append_drop]
      rw [hdrop] at hparts
      rcases List.mem_append.mp hparts with hmem | hmem
      · exact hrights term (List.mem_reverse.mpr hmem)
      · rcases List.mem_cons.mp hmem with rfl | hmem
        · exact hleft
        · exact hlast term (List.mem_cons_of_mem _ hmem)

theorem foldUnaryRun_back {ops : List Operator} {operands last : List Term}
    (hfold : foldUnaryRun Term.builder ops operands = pure last) (hlast : ∀ term ∈ last, P term) :
    (∀ term ∈ operands, P term) ∧ foldUnaryRun builder ops operands = pure last := by
  induction ops generalizing operands with
  | nil =>
    obtain rfl : operands = last := Run.pure_inj hfold
    exact ⟨hlast, rfl⟩
  | cons op ops ih =>
    rcases operands with _ | ⟨operand, older⟩
    · exact absurd hfold Run.throw_ne_pure
    · obtain ⟨hall, hfolded⟩ := @ih (.apply op [operand] :: older) hfold
      have happly : P (.apply op [operand]) := hall _ List.mem_cons_self
      refine ⟨?_, by rw [foldUnaryRun, h.build happly, pure_bind, hfolded]⟩
      intro term hterm
      rcases List.mem_cons.mp hterm with rfl | hmem
      · exact h.operands happly term List.mem_cons_self
      · exact hall term (List.mem_cons_of_mem _ hmem)

theorem foldPair_back {op : Operator} {operands last : List Term}
    (hfold : foldPair Term.builder op operands = pure last) (hlast : ∀ term ∈ last, P term) :
    (∀ term ∈ operands, P term) ∧ foldPair builder op operands = pure last := by
  rcases operands with _ | ⟨right, _ | ⟨left, older⟩⟩
  · exact absurd hfold Run.throw_ne_pure
  · exact absurd hfold Run.throw_ne_pure
  · obtain rfl : .apply op [left, right] :: older = last := Run.pure_inj hfold
    have happly : P (.apply op [left, right]) := hlast _ List.mem_cons_self
    obtain ⟨hleft, hright⟩ := h.pair happly
    refine ⟨?_, by rw [foldPair, h.build happly, pure_bind]⟩
    simpa using ⟨hright, hleft, fun term hmem => hlast term (List.mem_cons_of_mem _ hmem)⟩

theorem foldRightRun_back {ops : List Operator} {operands last : List Term}
    (hfold : foldRightRun Term.builder ops operands = pure last) (hlast : ∀ term ∈ last, P term) :
    (∀ term ∈ operands, P term) ∧ foldRightRun builder ops operands = pure last := by
  induction ops generalizing operands with
  | nil =>
    obtain rfl : operands = last := Run.pure_inj hfold
    exact ⟨hlast, rfl⟩
  | cons op ops ih =>
    rcases operands with _ | ⟨right, _ | ⟨left, older⟩⟩
    · exact absurd hfold Run.throw_ne_pure
    · exact absurd hfold Run.throw_ne_pure
    · obtain ⟨hall, hfolded⟩ := @ih (.apply op [left, right] :: older) hfold
      have hnewest : foldPair Term.builder op (right :: left :: older) =
        pure (.apply op [left, right] :: older) := rfl
      obtain ⟨hoperands, hpair⟩ := foldPair_back h hnewest hall
      exact ⟨hoperands, by rw [foldRightRun, hpair, pure_bind, hfolded]⟩

theorem foldUnary_back {rank : Rank} {region last : Region Term}
    (hfold : region.foldUnary Term.builder rank = pure last) (hlast : last.All P) :
    region.All P ∧ region.foldUnary builder rank = pure last := by
  unfold foldUnary at hfold ⊢
  obtain ⟨folded, hrun, hrest⟩ := (foldUnaryRun_settled _ _).of_bind hfold
  obtain rfl := Run.pure_inj hrest
  obtain ⟨hall, hback⟩ := foldUnaryRun_back h hrun hlast
  exact ⟨hall, by dsimp only; rw [hback, pure_bind]⟩

theorem foldRight_back {rank : Rank} {region last : Region Term}
    (hfold : region.foldRight Term.builder rank = pure last) (hlast : last.All P) :
    region.All P ∧ region.foldRight builder rank = pure last := by
  unfold foldRight at hfold ⊢
  obtain ⟨folded, hrun, hrest⟩ := (foldRightRun_settled _ _).of_bind hfold
  obtain rfl := Run.pure_inj hrest
  obtain ⟨hall, hback⟩ := foldRightRun_back h hrun hlast
  exact ⟨hall, by dsimp only; rw [hback, pure_bind]⟩

theorem foldNewest_back {rank : Rank} {region last : Region Term}
    (hfold : (do return (← region.foldNewest Term.builder rank).1) = (pure last : Run (Region Term)))
    (hlast : last.All P) :
    region.All P ∧ (do return (← region.foldNewest builder rank).1) = (pure last : Run (Region Term)) := by
  obtain ⟨operands, operators⟩ := region
  unfold foldNewest at hfold ⊢
  rcases operators with _ | ⟨op, older⟩
  · obtain rfl := Run.pure_inj hfold
    exact ⟨hlast, rfl⟩
  · by_cases hrank : (op.rank == rank) = true
    · simp only [hrank, if_true, bind_assoc, pure_bind] at hfold ⊢
      obtain ⟨folded, hpair, hrest⟩ := (foldPair_settled op operands).of_bind hfold
      obtain rfl := Run.pure_inj hrest
      obtain ⟨hall, hback⟩ := foldPair_back h hpair hlast
      exact ⟨hall, by rw [hback]; rfl⟩
    · simp only [hrank] at hfold ⊢
      obtain rfl := Run.pure_inj hfold
      exact ⟨hlast, rfl⟩

theorem foldChoice_back {rank : Rank} {region last : Region Term}
    (hfold : region.foldChoice Term.builder rank = pure last) (hlast : last.All P) :
    region.All P ∧ region.foldChoice builder rank = pure last := by
  obtain ⟨operands, operators⟩ := region
  unfold foldChoice at hfold ⊢
  rcases operators with _ | ⟨second, _ | ⟨first, older⟩⟩
  · exact absurd hfold Run.throw_ne_pure
  · exact absurd hfold Run.throw_ne_pure
  · by_cases hranks : (second.rank == rank && first.rank == rank) = true
    · simp only [hranks, if_true] at hfold ⊢
      rcases operands with _ | ⟨whenFalse, _ | ⟨whenTrue, _ | ⟨condition, rest⟩⟩⟩
      · exact absurd hfold Run.throw_ne_pure
      · exact absurd hfold Run.throw_ne_pure
      · exact absurd hfold Run.throw_ne_pure
      · obtain rfl := Run.pure_inj hfold
        have happly : P (.apply .choose [condition, whenTrue, whenFalse]) :=
          hlast _ List.mem_cons_self
        have hparts := h.operands happly
        refine ⟨fun term hterm => ?_, by dsimp only; rw [h.build happly, pure_bind]⟩
        simp only [List.mem_cons] at hterm
        rcases hterm with rfl | rfl | rfl | hmem
        · exact hparts _ (by simp)
        · exact hparts _ (by simp)
        · exact hparts _ (by simp)
        · exact hlast term (List.mem_cons_of_mem _ hmem)
    · simp only [hranks] at hfold
      exact absurd hfold Run.throw_ne_pure

theorem combine_back {mode : Combine} {region : Region Term} {last : Term}
    (hfold : region.combine Term.builder mode = pure last) (hlast : P last) :
    region.All P ∧ region.combine builder mode = pure last := by
  obtain ⟨operands, operators⟩ := region
  unfold combine at hfold ⊢
  by_cases hops : operators.isEmpty = true
  · simp only [hops, Bool.not_true, Bool.false_eq_true, if_false] at hfold ⊢
    cases mode with
    | text =>
      rcases operands with _ | ⟨operand, _ | ⟨other, older⟩⟩
      · refine ⟨by simp [All], ?_⟩
        rw [h.blank]
        exact hfold
      · obtain rfl : operand = last := Run.pure_inj hfold
        exact ⟨by simpa [All] using hlast, rfl⟩
      · obtain rfl : .apply .merge (operand :: other :: older).reverse = last := Run.pure_inj hfold
        refine ⟨fun term hterm => ?_, h.build hlast⟩
        exact h.operands hlast term (List.mem_reverse.mpr hterm)
    | list =>
      obtain rfl : .apply .array operands.reverse = last := Run.pure_inj hfold
      refine ⟨fun term hterm => ?_, h.build hlast⟩
      exact h.operands hlast term (List.mem_reverse.mpr hterm)
    | single =>
      rcases operands with _ | ⟨operand, _ | ⟨other, older⟩⟩
      · exact absurd hfold Run.throw_ne_pure
      · obtain rfl : operand = last := Run.pure_inj hfold
        exact ⟨by simpa [All] using hlast, rfl⟩
      · exact absurd hfold Run.throw_ne_pure
  · simp only [hops, Bool.not_false, if_true, Run.throw_bind] at hfold
    exact absurd hfold Run.throw_ne_pure

end Region

/-! ## Steps and runs -/

namespace Regions

omit h in
theorem inCurrent_back {regions last : Regions Term} (change change' : Region Term → Run (Region Term))
    (hsettled : Run.Settled (change regions.current))
    (hchange : ∀ {region : Region Term}, change regions.current = pure region → region.All P →
      regions.current.All P ∧ change' regions.current = pure region)
    (hstep : regions.inCurrent change = pure last) (hlast : last.All P) :
    regions.All P ∧ regions.inCurrent change' = pure last := by
  unfold inCurrent at hstep ⊢
  obtain ⟨region, hregion, hrest⟩ := hsettled.of_bind hstep
  obtain rfl := Run.pure_inj hrest
  obtain ⟨hcurrent, hback⟩ := hchange hregion hlast.current
  exact ⟨⟨hcurrent, hlast.outer⟩, by rw [hback, pure_bind]⟩

theorem step_back {regions last : Regions Term} {step : Step Term}
    (hstep : regions.step Term.builder step = pure last) (hlast : last.All P) :
    regions.All P ∧ regions.step builder step = pure last := by
  cases step with
  | push operand =>
    obtain rfl := Run.pure_inj hstep
    refine ⟨⟨fun term hterm => ?_, hlast.outer⟩, rfl⟩
    exact hlast.current term (List.mem_cons_of_mem _ hterm)
  | operator op =>
    obtain rfl := Run.pure_inj hstep
    exact ⟨⟨hlast.current, hlast.outer⟩, rfl⟩
  | foldLeft rank =>
    exact inCurrent_back (fun region => region.foldLeft Term.builder rank) (fun region => region.foldLeft builder rank)
      (Region.foldLeft_settled rank _) (Region.foldLeft_back h) hstep hlast
  | foldUnary rank =>
    exact inCurrent_back (fun region => region.foldUnary Term.builder rank) (fun region => region.foldUnary builder rank)
      (Region.foldUnary_settled rank _) (Region.foldUnary_back h) hstep hlast
  | foldNewest rank =>
    exact inCurrent_back (fun region => do return (← region.foldNewest Term.builder rank).1)
      (fun region => do return (← region.foldNewest builder rank).1)
      (Region.foldNewest_settled rank _) (Region.foldNewest_back h) hstep hlast
  | foldRight rank =>
    exact inCurrent_back (fun region => region.foldRight Term.builder rank) (fun region => region.foldRight builder rank)
      (Region.foldRight_settled rank _) (Region.foldRight_back h) hstep hlast
  | foldChoice =>
    exact inCurrent_back (fun region => region.foldChoice Term.builder .choice) (fun region => region.foldChoice builder .choice)
      (Region.foldChoice_settled .choice _) (Region.foldChoice_back h) hstep hlast
  | enter =>
    obtain rfl := Run.pure_inj hstep
    exact ⟨⟨hlast.outer _ List.mem_cons_self,
      fun region hregion => hlast.outer region (List.mem_cons_of_mem _ hregion)⟩, rfl⟩
  | leave mode =>
    obtain ⟨current, outer⟩ := regions
    have hstep : Regions.leave Term.builder mode ⟨current, outer⟩ = pure last := hstep
    show _ ∧ Regions.leave builder mode ⟨current, outer⟩ = pure last
    unfold leave at hstep ⊢
    rcases outer with _ | ⟨around, outer⟩
    · exact absurd hstep Run.throw_ne_pure
    · obtain ⟨term, hcombine, hrest⟩ := (Region.combine_settled mode current).of_bind hstep
      obtain rfl := Run.pure_inj hrest
      obtain ⟨hcurrent, hback⟩ :=
        Region.combine_back h hcombine (hlast.current term List.mem_cons_self)
      refine ⟨⟨hcurrent, fun region hregion => ?_⟩, by dsimp only; rw [hback, pure_bind]⟩
      rcases List.mem_cons.mp hregion with rfl | hregion
      · exact fun term hterm => hlast.current term (List.mem_cons_of_mem _ hterm)
      · exact hlast.outer region hregion

/-- **A builder that admits what there is at the end goes the whole way.** -/
theorem run_back {steps : List (Step Term)} {regions last : Regions Term}
    (hrun : regions.run Term.builder steps = pure last) (hlast : last.All P) :
    regions.All P ∧ regions.run builder steps = pure last := by
  induction steps generalizing regions with
  | nil =>
    obtain rfl := Run.pure_inj hrun
    exact ⟨hlast, rfl⟩
  | cons step rest ih =>
    obtain ⟨middle, hstep, hrest⟩ := (step_settled regions step).of_bind hrun
    obtain ⟨hmiddle, hback⟩ := ih hrest
    obtain ⟨hall, hstep'⟩ := step_back h hstep hmiddle
    exact ⟨hall, by rw [run, hstep', pure_bind, hback]⟩

theorem finish_back {regions : Regions Term} {last : Term}
    (hfinish : regions.finish Term.builder = pure last) (hlast : P last) :
    regions.All P ∧ regions.finish builder = pure last := by
  obtain ⟨current, outer⟩ := regions
  unfold finish at hfinish ⊢
  rcases outer with _ | ⟨around, outer⟩
  · obtain ⟨hcurrent, hback⟩ := Region.combine_back h hfinish hlast
    exact ⟨⟨hcurrent, by simp⟩, hback⟩
  · exact absurd hfinish Run.throw_ne_pure

end Regions

end

end LiveTemplate
