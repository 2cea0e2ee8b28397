import LiveTemplate.Proofs.Syntax.Term
/-!
# Folding what has been read

The machine reduces late: a chain of operators of one rank waits until its last operand has been
read, signs wait for what they stand before, and the two markers of a choice for its second
branch.  Here is what each of the folds then makes of them.  In every case the operators that wait
are a run of one rank on top of operators that bind more loosely, so that the fold takes exactly
the run; this is what `Regions.Clear` is for.
-/

set_option autoImplicit false

namespace LiveTemplate

open Grammar (Script)

/-! ## The run on top -/

/-- A run of operators of one rank ends where a state that was clear began. -/
theorem takeWhile_rank {rank : Rank} {run older : List Operator} (hrun : ∀ op ∈ run, op.rank = rank)
    (hc : ∀ op ∈ older.head?, rank.level < op.rank.level) :
    (run ++ older).takeWhile (fun op => op.rank == rank) = run := by
  rw [List.takeWhile_append_of_pos (by simpa using hrun)]
  rcases older with _ | ⟨op, older⟩
  · simp
  · have hne : op.rank ≠ rank := fun h => Nat.lt_irrefl _ (h ▸ hc op rfl)
    simp [hne]

/-- Operators and operands that wait as a chain: the first operand, and each operator with the
operand after it. -/
def Regions.pushChain (regions : Regions Term) (first : Tree) (rest : List (Operator × Tree)) :
    Regions Term :=
  ⟨⟨(rest.map fun link => link.2.term).reverse ++ first.term :: regions.current.operands,
    (rest.map fun link => link.1).reverse ++ regions.current.operators⟩, regions.outer⟩

namespace Regions

theorem pushChain_snoc (regions : Regions Term) (first : Tree) (rest : List (Operator × Tree))
    (op : Operator) (tree : Tree) :
    regions.pushChain first (rest ++ [(op, tree)])
      = ((regions.pushChain first rest).pushOperator op).push tree.term := by
  simp [pushChain, pushOperator, push, Region.pushOperator, Region.push]

theorem pushOperators_eq (regions : Regions Term) (ops : List Operator) :
    regions.pushOperators ops
      = ⟨⟨regions.current.operands, ops.reverse ++ regions.current.operators⟩, regions.outer⟩ := by
  induction ops generalizing regions with
  | nil => rfl
  | cons op rest ih =>
    show (regions.pushOperator op).pushOperators rest = _
    rw [ih, List.reverse_cons, List.append_assoc]
    rfl

theorem clear_pushOperators {rank : Rank} (regions : Regions Term) {ops : List Operator}
    (hne : ops ≠ []) (h : ∀ op ∈ ops, rank.level < op.rank.level) :
    (regions.pushOperators ops).Clear rank := by
  rcases List.eq_nil_or_concat ops with rfl | ⟨before, last, rfl⟩
  · exact absurd rfl hne
  · have hlast : rank.level < last.rank.level := h last (by simp)
    rw [List.concat_eq_append, pushOperators, List.foldl_append]
    exact clear_pushOperator _ hlast

end Regions

/-! ## The folds -/

namespace Region

theorem foldChain_terms (left : Tree) (rest : List (Operator × Tree)) :
    foldChain Term.builder left.term (rest.map fun link => link.1) (rest.map fun link => link.2.term)
      = pure (Tree.fromLeft left rest).term := by
  induction rest generalizing left with
  | nil => rfl
  | cons link rest ih =>
    obtain ⟨op, right⟩ := link
    exact ih (.binary op left right)

theorem foldRightRun_append {α : Type} (builder : Builder α) (first second : List Operator)
    (operands : List α) :
    foldRightRun builder (first ++ second) operands
      = foldRightRun builder first operands >>= foldRightRun builder second := by
  induction first generalizing operands with
  | nil => simp [foldRightRun]
  | cons op rest ih => simp [foldRightRun, ih]

theorem foldRightRun_terms (left : Tree) (rest : List (Operator × Tree)) (older : List Term) :
    foldRightRun Term.builder (rest.map fun link => link.1).reverse
        ((rest.map fun link => link.2.term).reverse ++ left.term :: older)
      = pure ((Tree.fromRight left rest).term :: older) := by
  induction rest generalizing left older with
  | nil => rfl
  | cons link rest ih =>
    obtain ⟨op, right⟩ := link
    rw [List.map_cons, List.map_cons, List.reverse_cons, List.reverse_cons, foldRightRun_append,
      List.append_assoc, List.singleton_append, ih right (left.term :: older), pure_bind]
    rfl

theorem foldUnaryRun_append {α : Type} (builder : Builder α) (first second : List Operator)
    (operand : α) (older : List α)  :
    foldUnaryRun builder (first ++ second) (operand :: older)
      = foldUnaryRun builder first (operand :: older) >>= foldUnaryRun builder second := by
  induction first generalizing operand with
  | nil => simp [foldUnaryRun]
  | cons op rest ih => simp [foldUnaryRun, ih]

theorem foldUnaryRun_terms (ops : List Operator) (operand : Tree) (older : List Term) :
    foldUnaryRun Term.builder ops.reverse (operand.term :: older)
      = pure ((Tree.signed ops operand).term :: older) := by
  induction ops with
  | nil => rfl
  | cons op rest ih =>
    rw [List.reverse_cons, foldUnaryRun_append, ih, pure_bind]
    rfl

/-! A fold of the whole region, with what waited there before. -/

variable {rank : Rank} {operands : List Term} {operators : List Operator}

theorem foldLeft_terms (hc : ∀ op ∈ operators.head?, rank.level < op.rank.level) (first : Tree)
    {rest : List (Operator × Tree)} (hrest : ∀ link ∈ rest, link.1.rank = rank) :
    foldLeft Term.builder rank
        ⟨(rest.map fun link => link.2.term).reverse ++ first.term :: operands,
          (rest.map fun link => link.1).reverse ++ operators⟩
      = pure ⟨(Tree.fromLeft first rest).term :: operands, operators⟩ := by
  unfold foldLeft
  dsimp only
  rw [takeWhile_rank (by simpa using hrest) hc]
  rcases rest with _ | ⟨link, rest⟩
  · rfl
  · have hlength : ((link :: rest).map fun link => link.1).reverse.length
        = ((link :: rest).map fun link => link.2.term).reverse.length := by simp
    rw [if_neg (by simp), hlength, List.drop_left, List.take_left, ← hlength, List.drop_left,
      List.reverse_reverse, List.reverse_reverse]
    dsimp only
    rw [foldChain_terms]
    rfl

theorem foldRight_terms (hc : ∀ op ∈ operators.head?, rank.level < op.rank.level) (first : Tree)
    {rest : List (Operator × Tree)} (hrest : ∀ link ∈ rest, link.1.rank = rank) :
    foldRight Term.builder rank
        ⟨(rest.map fun link => link.2.term).reverse ++ first.term :: operands,
          (rest.map fun link => link.1).reverse ++ operators⟩
      = pure ⟨(Tree.fromRight first rest).term :: operands, operators⟩ := by
  unfold foldRight
  dsimp only
  rw [takeWhile_rank (by simpa using hrest) hc, foldRightRun_terms, List.drop_left]
  rfl

theorem foldUnary_terms (hc : ∀ op ∈ operators.head?, rank.level < op.rank.level)
    {ops : List Operator} (hops : ∀ op ∈ ops, op.rank = rank) (operand : Tree) :
    foldUnary Term.builder rank ⟨operand.term :: operands, ops.reverse ++ operators⟩
      = pure ⟨(Tree.signed ops operand).term :: operands, operators⟩ := by
  unfold foldUnary
  dsimp only
  rw [takeWhile_rank (by simpa using hops) hc, foldUnaryRun_terms, List.drop_left]
  rfl

end Region

namespace Takes

variable {regions : Regions Term} {rank : Rank}

/-- A step that changes the current region only. -/
theorem inCurrent {last : Region Term} (change : Region Term → Run (Region Term)) {step : Step Leaf}
    (hstep : regions.step Term.builder step.onTerms = regions.inCurrent change)
    (h : change regions.current = pure last) :
    Takes regions [step] ⟨last, regions.outer⟩ := by
  apply single
  rw [hstep, Regions.inCurrent, h]
  rfl

theorem foldLeft (hc : regions.Clear rank) (first : Tree) {rest : List (Operator × Tree)}
    (hrest : ∀ link ∈ rest, link.1.rank = rank) :
    Takes (regions.pushChain first rest) [.foldLeft rank]
      (regions.push (Tree.fromLeft first rest).term) :=
  inCurrent _ rfl (Region.foldLeft_terms hc first hrest)

theorem foldRight (hc : regions.Clear rank) (first : Tree) {rest : List (Operator × Tree)}
    (hrest : ∀ link ∈ rest, link.1.rank = rank) :
    Takes (regions.pushChain first rest) [.foldRight rank]
      (regions.push (Tree.fromRight first rest).term) :=
  inCurrent _ rfl (Region.foldRight_terms hc first hrest)

theorem foldUnary (hc : regions.Clear rank) {ops : List Operator}
    (hops : ∀ op ∈ ops, op.rank = rank) (operand : Tree) :
    Takes ((regions.pushOperators ops).push operand.term) [.foldUnary rank]
      (regions.push (Tree.signed ops operand).term) := by
  rw [Regions.pushOperators_eq]
  exact inCurrent _ rfl (Region.foldUnary_terms hc hops operand)

/-- The operator of a map stands alone before its operand. -/
theorem foldMap (hc : regions.Clear .access) (operand : Term) :
    Takes ((regions.pushOperator .map).push operand) [.foldUnary .access]
      (regions.push (.apply .map [operand])) := by
  have hrun : ([Operator.map] ++ regions.current.operators).takeWhile (fun op => op.rank == .access)
      = [.map] := takeWhile_rank (by simp [Operator.rank]) hc
  have hfold : Region.foldUnary Term.builder .access
      ⟨operand :: regions.current.operands, [.map] ++ regions.current.operators⟩
      = pure (regions.push (.apply .map [operand])).current := by
    unfold Region.foldUnary
    dsimp only
    rw [hrun]
    rfl
  exact inCurrent _ rfl hfold

/-- An access is folded with what it is an access to. -/
theorem foldAccess (regions : Regions Term) {op : Operator} (hop : op.rank = .access)
    (container operand : Term) :
    Takes (((regions.push container).pushOperator op).push operand) [.foldNewest .access]
      (regions.push (.apply op [container, operand])) := by
  have hfold : Region.foldNewest Term.builder .access
      (((regions.push container).pushOperator op).push operand).current
      = pure ((regions.push (.apply op [container, operand])).current, true) := by
    show Region.foldNewest Term.builder .access
      ⟨operand :: container :: regions.current.operands, op :: regions.current.operators⟩ = _
    simp only [Region.foldNewest, hop, beq_self_eq_true, if_true]
    rfl
  refine inCurrent (fun region => do return (← region.foldNewest Term.builder .access).1) rfl ?_
  rw [hfold]
  rfl

/-- The two markers of a choice stand between its three parts. -/
theorem foldChoice (regions : Regions Term) (condition whenTrue whenFalse : Term) :
    Takes (((((regions.push condition).pushOperator .choose).push whenTrue).pushOperator .choose).push
        whenFalse) [.foldChoice]
      (regions.push (.apply .choose [condition, whenTrue, whenFalse])) := rfl

theorem operators (ops : List Operator) :
    Takes regions (ops.map .operator) (regions.pushOperators ops) := by
  induction ops generalizing regions with
  | nil => exact .nil regions
  | cons op rest ih => exact (Takes.operator regions op).cons ih

end Takes

end LiveTemplate
