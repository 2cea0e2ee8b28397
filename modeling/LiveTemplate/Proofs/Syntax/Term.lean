import LiveTemplate.Proofs.Region.Parametric
import LiveTemplate.Proofs.Syntax.Reading
/-!
# Terms

A term is an operand or an operator on terms, and nothing is computed when one is put together.
The machine of regions runs on terms as it runs on values, only that it cannot meet any fault but
its own.  So there are two halves to what a reading does, and this file is the hinge between them:
what the machine does with terms is a matter of the grammar alone, and how a term stands for a
value is a matter of evaluation alone.  Parametricity puts the halves together.

`Takes regions script end` says that a script leads the machine on terms from one state to
another.
-/

set_option autoImplicit false

namespace LiveTemplate

open Grammar (Script)

/-- Operators on operands, uncomputed. -/
inductive Term where
  | leaf (leaf : Leaf)
  /-- A value that was there before. -/
  | given (value : Value)
  | apply (op : Operator) (operands : List Term)

namespace Term

/-- Putting an operator on terms makes a term. -/
def builder : Builder Term := ⟨fun op operands => pure (.apply op operands), .leaf (.text "")⟩

/-- The term of a text by those of its segments. -/
def joined : List Term → Term
  | [] => .leaf (.text "")
  | [segment] => segment
  | segments => .apply .merge segments

theorem joined_several {segments : List Term} (h : 2 ≤ segments.length) :
    joined segments = .apply .merge segments := by
  rcases segments with _ | ⟨first, _ | ⟨second, rest⟩⟩
  · simp at h
  · simp at h
  · rfl

/-- Closing a text region makes the term of the text, whose segments wait newest first. -/
theorem combine_text (operands : List Term) :
    Region.combine builder .text ⟨operands, []⟩ = pure (joined operands.reverse) := by
  rcases operands with _ | ⟨last, _ | ⟨other, older⟩⟩
  · rfl
  · rfl
  · rw [joined_several (by simp)]
    rfl

end Term

mutual
/-- The term of a tree. -/
def Tree.term : Tree → Term
  | .leaf operand => .leaf operand
  | .binding content => content.term
  | .text segments => .joined (Tree.terms segments)
  | .group content => content.term
  | .array items => .apply .array (Tree.terms items)
  | .map entries => .apply .map [.apply .array (Tree.entryTerms entries)]
  | .field container name => .apply .field [container.term, .leaf (.text name)]
  | .index container key => .apply .index [container.term, key.term]
  | .call callee arguments => .apply .call [callee.term, .apply .array (Tree.terms arguments)]
  | .sign op operand => .apply op [operand.term]
  | .binary op left right => .apply op [left.term, right.term]
  | .choice condition whenTrue whenFalse =>
    .apply .choose [condition.term, whenTrue.term, whenFalse.term]

/-- The terms of trees. -/
def Tree.terms : List Tree → List Term
  | [] => []
  | tree :: rest => tree.term :: Tree.terms rest

/-- The terms of keys and values in turn. -/
def Tree.entryTerms : List (Tree × Tree) → List Term
  | [] => []
  | (key, value) :: rest => key.term :: value.term :: Tree.entryTerms rest
end

namespace Tree

theorem terms_eq_flatMap (trees : List Tree) :
    terms trees = trees.flatMap fun tree => [tree.term] := by
  induction trees with
  | nil => rfl
  | cons tree rest ih =>
    rw [terms, ih]
    rfl

theorem entryTerms_eq_flatMap (entries : List (Tree × Tree)) :
    entryTerms entries = entries.flatMap fun entry => [entry.1.term, entry.2.term] := by
  induction entries with
  | nil => rfl
  | cons entry rest ih =>
    obtain ⟨key, value⟩ := entry
    rw [entryTerms, ih]
    rfl

end Tree

/-- The term of an access to what a term stands for. -/
def Access.term (container : Term) : Access → Term
  | .field name => .apply .field [container, .leaf (.text name)]
  | .index key => .apply .index [container, key.term]
  | .call arguments => .apply .call [container, .apply .array (Tree.terms arguments)]

theorem Access.term_of (container : Tree) (access : Access) :
    (access.of container).term = access.term container.term := by
  cases access <;> rfl

/-! ## States of the machine -/

namespace Regions

variable {α : Type}

/-- Add an operand to the current region. -/
def push (regions : Regions α) (operand : α) : Regions α :=
  { regions with current := regions.current.push operand }

/-- Add operands to the current region, the first one first. -/
def pushAll (regions : Regions α) (operands : List α) : Regions α := operands.foldl push regions

/-- Add an operator to the current region. -/
def pushOperator (regions : Regions α) (op : Operator) : Regions α :=
  { regions with current := regions.current.pushOperator op }

/-- Add operators to the current region, the first one first. -/
def pushOperators (regions : Regions α) (ops : List Operator) : Regions α :=
  ops.foldl pushOperator regions

/-- The newest operator that waits in the current region binds more loosely than a rank, if there
is one.  Then folding the operators of the rank, or of a tighter one, folds those that have been
added since. -/
def Clear (rank : Rank) (regions : Regions α) : Prop :=
  ∀ op ∈ regions.current.operators.head?, rank.level < op.rank.level

theorem Clear.tighter {rank rank' : Rank} {regions : Regions α} (h : regions.Clear rank)
    (hr : rank'.level ≤ rank.level) : regions.Clear rank' :=
  fun op hop => Nat.lt_of_le_of_lt hr (h op hop)

theorem Clear.push {rank : Rank} {regions : Regions α} (h : regions.Clear rank) (operand : α) :
    (regions.push operand).Clear rank := h

theorem clear_enter (rank : Rank) (regions : Regions α) : regions.enter.Clear rank :=
  fun _ hop => by cases hop

theorem clear_empty (rank : Rank) : (empty : Regions α).Clear rank :=
  fun _ hop => by cases hop

theorem clear_pushOperator {rank : Rank} (regions : Regions α) {op : Operator}
    (h : rank.level < op.rank.level) : (regions.pushOperator op).Clear rank := by
  intro op' hop
  obtain rfl : op = op' := by simpa [pushOperator, Region.pushOperator] using hop
  exact h

@[simp]
theorem pushAll_current_operands (regions : Regions α) (operands : List α) :
    (regions.pushAll operands).current.operands = operands.reverse ++ regions.current.operands := by
  induction operands generalizing regions with
  | nil => rfl
  | cons operand rest ih =>
    show ((regions.push operand).pushAll rest).current.operands = _
    rw [ih, List.reverse_cons, List.append_assoc]
    rfl

@[simp]
theorem pushAll_current_operators (regions : Regions α) (operands : List α) :
    (regions.pushAll operands).current.operators = regions.current.operators := by
  induction operands generalizing regions with
  | nil => rfl
  | cons operand rest ih => exact ih (regions.push operand)

@[simp]
theorem pushAll_outer (regions : Regions α) (operands : List α) :
    (regions.pushAll operands).outer = regions.outer := by
  induction operands generalizing regions with
  | nil => rfl
  | cons operand rest ih => exact ih (regions.push operand)

theorem Clear.pushAll {rank : Rank} {regions : Regions α} (h : regions.Clear rank)
    (operands : List α) : (regions.pushAll operands).Clear rank := by
  intro op hop
  rw [pushAll_current_operators] at hop
  exact h op hop

theorem enter_pushAll (regions : Regions α) (operands : List α) :
    regions.enter.pushAll operands = ⟨⟨operands.reverse, []⟩, regions.current :: regions.outer⟩ := by
  have hoperands := pushAll_current_operands regions.enter operands
  have hoperators := pushAll_current_operators regions.enter operands
  have houter := pushAll_outer regions.enter operands
  revert hoperands hoperators houter
  rcases regions.enter.pushAll operands with ⟨⟨xs, ops⟩, outer⟩
  simp only [enter, Region.empty, List.append_nil]
  rintro rfl rfl rfl
  rfl

theorem pushAll_append (regions : Regions α) (first second : List α) :
    regions.pushAll (first ++ second) = (regions.pushAll first).pushAll second :=
  List.foldl_append

end Regions

/-! ## Runs on terms -/

/-- A step with its operand as a term. -/
def Step.onTerms : Step Leaf → Step Term
  | .push operand => .push (.leaf operand)
  | .operator op => .operator op
  | .foldLeft rank => .foldLeft rank
  | .foldUnary rank => .foldUnary rank
  | .foldNewest rank => .foldNewest rank
  | .foldRight rank => .foldRight rank
  | .foldChoice => .foldChoice
  | .enter => .enter
  | .leave mode => .leave mode

/-- The script leads the machine on terms from the one state to the other. -/
def Takes (regions : Regions Term) (script : Script) (last : Regions Term) : Prop :=
  regions.run Term.builder (script.map Step.onTerms) = pure last

namespace Takes

theorem nil (regions : Regions Term) : Takes regions [] regions := rfl

theorem append {regions middle last : Regions Term} {first second : Script}
    (h : Takes regions first middle) (k : Takes middle second last) :
    Takes regions (first ++ second) last := by
  unfold Takes at *
  rw [List.map_append, Regions.run_append, h, pure_bind, k]

theorem single {regions last : Regions Term} {step : Step Leaf}
    (h : regions.step Term.builder step.onTerms = pure last) : Takes regions [step] last := by
  unfold Takes
  rw [List.map_cons, Regions.run, h, pure_bind]
  rfl

theorem cons {regions middle last : Regions Term} {step : Step Leaf} {rest : Script}
    (h : Takes regions [step] middle) (k : Takes middle rest last) :
    Takes regions (step :: rest) last := h.append k

theorem push (regions : Regions Term) (operand : Leaf) :
    Takes regions [.push operand] (regions.push (.leaf operand)) := rfl

theorem operator (regions : Regions Term) (op : Operator) :
    Takes regions [.operator op] (regions.pushOperator op) := rfl

theorem enter (regions : Regions Term) : Takes regions [.enter] regions.enter := rfl

/-- A region that holds one term is closed, and the term is an operand of the region around it. -/
theorem leaveSingle (regions : Regions Term) (term : Term) :
    Takes (regions.enter.push term) [.leave .single] (regions.push term) := rfl

theorem leaveText (regions : Regions Term) (segments : List Term) :
    Takes (regions.enter.pushAll segments) [.leave .text] (regions.push (.joined segments)) := by
  apply single
  show Regions.leave _ _ _ = _
  rw [Regions.enter_pushAll, Regions.leave, Term.combine_text, List.reverse_reverse]
  rfl

theorem leaveList (regions : Regions Term) (items : List Term) :
    Takes (regions.enter.pushAll items) [.leave .list] (regions.push (.apply .array items)) := by
  apply single
  show Regions.leave _ _ _ = _
  rw [Regions.enter_pushAll]
  show (pure (regions.push (.apply .array items.reverse.reverse)) : Run (Regions Term)) = _
  rw [List.reverse_reverse]

end Takes

end LiveTemplate
