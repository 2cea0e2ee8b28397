import LiveTemplate.Proofs.Syntax.Tokens
/-!
# Reading level by level

The rules for operands are stacked by level: factors, factors with signs, chains of ever looser
operators, choices.  A text that can be read at one level can be read at every looser one, where it
is a chain of one operand; `Form` says what that means at each level, and `Form.raise` leads from
the one to the other.

What is said of a text is always said together with what may follow it.  For an operand of a chain
that is more than what may follow the chain: a further link may.  So a chain is known by its first
operand and its links, and that it is read to a tree follows where nothing goes on with it.
-/

set_option autoImplicit false

namespace LiveTemplate.TreeGrammar

open Text (isBlank skipBlank)
open Grammar
open Grammar.Rule

variable {α : Type} {rule element : Rule α} {inner operand : Rule Tree} {value : α}
variable {tree left right : Tree} {text rest before after middle inside : List Char} {c d : Char}

/-- The text is read wherever an expression of the level may end. -/
def ReadsTo (rule : Rule α) (level : Nat) (text : List Char) (value : α) : Prop :=
  ∀ rest, Stops level rest → Parses rule (text ++ rest) value rest

/-! ## Between brackets -/

/-- The text is read between brackets and commas. -/
structure Inside (rule : Rule α) (text : List Char) (value : α) : Prop where
  opens : Opens text
  reads : ReadsTo rule Rank.choice.level text value

theorem closer_not_blank (hc : c ∈ closers) : isBlank c = false :=
  of_mem_list hc (by decide)

theorem starts_opening (h : Opens text) (rest : List Char) :
    Starts (isBlank · = false) (text ++ rest) :=
  (h.append rest).starts fun _ hc => opening_not_blank hc

/-- A mark, blanks, something, blanks, and a mark. -/
theorem parses_enclosed {β : Type} {x : Rule α} {result : α → β} {mistake : Mistake}
    {start stop : List Char} (hbefore : Parses blanks before () start)
    (hx : Parses x start value stop) (hafter : Parses blanks stop () (d :: rest)) :
    Parses (do
      char c
      blanks
      let value ← x
      blanks
      must mistake (char d)
      return result value) (c :: before) (result value) rest :=
  (Parses.char c before).bind <| hbefore.bind <| hx.bind <| hafter.bind <|
    ((Parses.char d rest).must mistake).bind <| .pure _ _

/-- What stands between brackets, with blanks around it. -/
theorem Inside.padded (h : Inside rule middle value) (hbefore : IsBlanks before)
    (hafter : IsBlanks after) (hd : d ∈ closers) (rest : List Char) :
    Parses blanks (before ++ (middle ++ (after ++ d :: rest))) () (middle ++ (after ++ d :: rest)) ∧
    Parses rule (middle ++ (after ++ d :: rest)) value (after ++ d :: rest) ∧
    Parses blanks (after ++ d :: rest) () (d :: rest) :=
  ⟨.blanks hbefore (starts_opening h.opens _), h.reads _ (stops_closer _ hafter hd),
    .blanks hafter (starts_cons.mpr (closer_not_blank hd))⟩

/-! ## Lists -/

/-- A comma, and a further element. -/
def further (element : Rule α) (missing : Mistake) : Rule α := do
  blanks
  char ','
  blanks
  must missing element

theorem continued_stops {more : List (List Char)} {tail : List Char} (h : Continued more tail)
    (hafter : IsBlanks after) (hd : d ∈ closers) (level : Nat) (rest : List Char) :
    Stops level (tail ++ (after ++ d :: rest)) := by
  cases more with
  | nil =>
    obtain rfl : tail = [] := h
    exact stops_closer level hafter hd
  | cons next more =>
    obtain ⟨before, between, rest', hbefore, _, _, rfl⟩ := h
    rw [List.append_assoc]
    exact stops_closer level hbefore (by decide)

theorem further_repeats {missing : Mistake} {texts : List (List Char)} {values : List α}
    (h : List.Forall₂ (Inside element) texts values) {tail : List Char} (htail : Continued texts tail)
    (hafter : IsBlanks after) (hd : d ∈ closers) (rest : List Char) :
    Repeats (further element missing) (tail ++ (after ++ d :: rest)) values (after ++ d :: rest) := by
  induction h generalizing tail with
  | nil =>
    obtain rfl : tail = [] := htail
    exact .nil _
  | @cons next value texts values hnext _ ih =>
    obtain ⟨before, between, more, hbefore, hbetween, hmore, rfl⟩ := htail
    simp only [List.append_assoc, List.cons_append]
    -- the next comma stops the element, or the bracket if it is the last one
    have hstops := continued_stops hmore hafter hd Rank.choice.level rest
    have hfurther : Parses (further element missing)
        (before ++ ',' :: (between ++ (next ++ (more ++ (after ++ d :: rest))))) value
        (more ++ (after ++ d :: rest)) := by
      refine (Parses.blanks hbefore (starts_cons.mpr (by decide))).bind ?_
      refine (Parses.char ',' _).bind ?_
      refine (Parses.blanks hbetween (starts_opening hnext.opens _)).bind ?_
      exact (hnext.reads _ hstops).must missing
    refine .cons hfurther ?_ (ih hmore)
    simp only [List.length_append, List.length_cons]
    omega

/-- A list between brackets, with blanks around it. -/
theorem listed_padded (missing : Mistake) {texts : List (List Char)} {values : List α}
    (h : List.Forall₂ (Inside element) texts values) (htext : Separated texts middle)
    (hbefore : IsBlanks before) (hafter : IsBlanks after) (hd : d ∈ closers) (hcomma : d ≠ ',')
    (hnone : Declines element (d :: rest)) :
    ∃ start stop, Parses blanks (before ++ (middle ++ (after ++ d :: rest))) () start ∧
      Parses (listed element missing) start values stop ∧ Parses blanks stop () (d :: rest) := by
  have hd' : Starts (isBlank · = false) (d :: rest) := starts_cons.mpr (closer_not_blank hd)
  cases h with
  | nil =>
    -- the blanks before and after are read at once
    obtain rfl : middle = [] := htext
    refine ⟨d :: rest, d :: rest, ?_, hnone.optional.bind (.pure _ _), .noBlanks hd'⟩
    rw [List.nil_append, ← List.append_assoc]
    refine .blanks (fun c hc => ?_) hd'
    exact (List.mem_append.mp hc).elim (hbefore c) (hafter c)
  | @cons first value texts values hfirst hmore =>
    obtain ⟨tail, htail, rfl⟩ := htext
    rw [List.append_assoc]
    refine ⟨_, after ++ d :: rest, .blanks hbefore (starts_opening hfirst.opens _), ?_,
      .blanks hafter hd'⟩
    have hstop := continued_stops htail hafter hd Rank.choice.level rest
    refine ((hfirst.reads _ hstop).optional).bind ?_
    refine ((further_repeats hmore htail hafter hd rest).collect ?_).bind (.pure _ _)
    exact .afterwards (.blanks hafter hd') (.bind (.char (starts_cons.mpr hcomma)))

/-! ## Levels -/

/-- The rule that reads the operands of a level: from the factors to the choices. -/
def ranked (inner : Rule Tree) : Nat → Rule Tree
  | 0 | 1 => factor inner
  | 2 => unary inner
  | 3 => term inner
  | 4 => sum inner
  | 5 => comparison inner
  | 6 => equality inner
  | 7 => conjunction inner
  | 8 => disjunction inner
  | 9 => coalescing inner
  | _ => choice inner

/-- The mistake of an operator without a right operand, by its level. -/
def missingAt : Nat → Mistake
  | 3 => .operandAfterTerm
  | 4 => .operandAfterSum
  | 5 => .operandAfterComparison
  | 6 => .operandAfterEquality
  | 7 => .operandAfterAnd
  | 8 => .operandAfterOr
  | _ => .operandAfterCoalesce

/-- An operator of the level, and an operand of the next tighter one. -/
def link (inner : Rule Tree) (lower : Nat) : Rule (Operator × Tree) := do
  blanks
  let op ← scan (operatorAt (lower + 1))
  blanks
  let right ← must (missingAt (lower + 1)) (ranked inner lower)
  return (op, right)

/-- A chain of operators of one level, with the way its links are put together. -/
def linked (inner : Rule Tree) (lower : Nat) (fold : Tree → List (Operator × Tree) → Tree) :
    Rule Tree := do
  let (first, links) ← chain (ranked inner lower) (operatorAt (lower + 1)) (missingAt (lower + 1))
  return fold first links

/-! ## Chains -/

theorem parses_link {lower : Nat} {op : Operator} (hop : op.isInfix = true)
    (hlevel : op.rank.level = lower + 1) (hbefore : IsBlanks before) (hafter : IsBlanks after)
    (hopens : Opens text) (h : Parses (ranked inner lower) (text ++ rest) right middle) :
    Parses (link inner lower) (before ++ (op.symbol ++ (after ++ (text ++ rest)))) (op, right)
      middle := by
  have hscan := operatorAt_spelled hop (symbolEnds_blanks hafter (hopens.append rest))
  rw [hlevel] at hscan
  refine (Parses.blanks hbefore (symbol_not_blank hop _)).bind ?_
  refine (Parses.scan hscan).bind ?_
  refine (Parses.blanks hafter (starts_opening hopens rest)).bind ?_
  exact (h.must _).bind (.pure _ _)

theorem link_declines {lower : Nat} (h : Stops (lower + 1) rest) :
    Declines (link inner lower) rest := by
  have hscan := h.operator (lower + 1) (Nat.le_refl _)
  exact .afterwards (show Parses blanks rest () (skipBlank rest) from rfl) (.bind (.scan hscan))

/-- The text is read as a chain of operators of the level above, or as a single operand.  Further
operators of that level may follow. -/
structure Chained (inner : Rule Tree) (lower : Nat) (fold : Tree → List (Operator × Tree) → Tree)
    (text : List Char) (tree : Tree) : Prop where
  opens : Opens text
  reads : ∃ first links, fold first links = tree ∧ ∀ rest, Stops lower rest → ∃ middle,
    middle.length ≤ (text ++ rest).length ∧ Parses (ranked inner lower) (text ++ rest) first middle ∧
    Repeats (link inner lower) middle links rest

namespace Chained

variable {lower : Nat} {fold : Tree → List (Operator × Tree) → Tree} {op : Operator}
variable {leftText rightText : List Char}

theorem single (hopens : Opens text) (h : ReadsTo (ranked inner lower) lower text tree)
    (hfold : fold tree [] = tree) : Chained inner lower fold text tree := by
  refine ⟨hopens, tree, [], hfold, fun rest hrest => ⟨rest, ?_, h rest hrest, .nil rest⟩⟩
  rw [List.length_append]
  exact Nat.le_add_left ..

theorem readsTo (h : Chained inner lower fold text tree) :
    ReadsTo (linked inner lower fold) (lower + 1) text tree := by
  intro rest hrest
  obtain ⟨first, links, rfl, hreads⟩ := h.reads
  -- what stops the chain stops its operands, and is no further link
  obtain ⟨middle, -, hfirst, hlinks⟩ := hreads rest (hrest.tighter (Nat.le_succ lower))
  have hcollect := hlinks.collect (link_declines hrest)
  have hchain : Parses (chain (ranked inner lower) (operatorAt (lower + 1)) (missingAt (lower + 1)))
      (text ++ rest) (first, links) rest := hfirst.bind (hcollect.bind (.pure _ _))
  exact hchain.bind (.pure _ _)

theorem fromLeft_append (first : Tree) (links : List (Operator × Tree)) (op : Operator)
    (right : Tree) :
    Tree.fromLeft first (links ++ [(op, right)]) = .binary op (Tree.fromLeft first links) right := by
  induction links generalizing first with
  | nil => rfl
  | cons link links ih => exact ih _

/-- One more operand on the right. -/
theorem appended (hleft : Chained inner lower Tree.fromLeft leftText left)
    (hopens : Opens rightText)
    (hright : ReadsTo (ranked inner lower) lower rightText right) (hop : op.isInfix = true)
    (hlevel : op.rank.level = lower + 1) (hbefore : IsBlanks before) (hafter : IsBlanks after) :
    Chained inner lower Tree.fromLeft (leftText ++ (before ++ (op.symbol ++ (after ++ rightText))))
      (.binary op left right) := by
  obtain ⟨first, links, rfl, hreads⟩ := hleft.reads
  refine ⟨hleft.opens.append _, first, links ++ [(op, right)], fromLeft_append .., ?_⟩
  intro rest hrest
  simp only [List.append_assoc]
  -- the operator stops the operands before it
  have hstops : Stops lower (before ++ (op.symbol ++ (after ++ (rightText ++ rest)))) :=
    stops_operator hop (by omega) hbefore (symbolEnds_blanks hafter (hopens.append rest))
  obtain ⟨middle, hlength, hfirst, hlinks⟩ := hreads _ hstops
  refine ⟨middle, hlength, hfirst, hlinks.append (.cons ?_ ?_ (.nil rest))⟩
  · exact parses_link hop hlevel hbefore hafter hopens (hright rest hrest)
  · obtain ⟨c, more, hcons, -⟩ := symbol_mark hop
    simp only [hcons, List.length_append, List.length_cons]
    omega

/-- One more operand on the left. -/
theorem prepended (hopens : Opens leftText)
    (hleft : ReadsTo (ranked inner lower) lower leftText left)
    (hright : Chained inner lower Tree.fromRight rightText right) (hop : op.isInfix = true)
    (hlevel : op.rank.level = lower + 1) (hbefore : IsBlanks before) (hafter : IsBlanks after) :
    Chained inner lower Tree.fromRight (leftText ++ (before ++ (op.symbol ++ (after ++ rightText))))
      (.binary op left right) := by
  obtain ⟨first, links, rfl, hreads⟩ := hright.reads
  refine ⟨hopens.append _, left, (op, first) :: links, rfl, ?_⟩
  intro rest hrest
  simp only [List.append_assoc]
  -- the operator stops its left operand, and the chain on its right goes on to the end
  have hstops : Stops lower (before ++ (op.symbol ++ (after ++ (rightText ++ rest)))) :=
    stops_operator hop (by omega) hbefore (symbolEnds_blanks hafter (hright.opens.append rest))
  obtain ⟨middle, hlength, hfirst, hlinks⟩ := hreads rest hrest
  refine ⟨_, ?_, hleft _ hstops, .cons ?_ ?_ hlinks⟩
  · simp
  · exact parses_link hop hlevel hbefore hafter hright.opens hfirst
  · obtain ⟨c, more, hcons, -⟩ := symbol_mark hop
    simp only [hcons, List.length_append, List.length_cons] at hlength ⊢
    omega

end Chained

/-! ## Factors -/

/-- The text starts like an expression, but with no sign. -/
def Bare (text : List Char) : Prop :=
  ∃ c rest, text = c :: rest ∧ isOpening c = true ∧ unaryOperator? [c] = none

theorem Bare.opens (h : Bare text) : Opens text := by
  obtain ⟨c, rest, rfl, hc, -⟩ := h
  exact ⟨c, rest, rfl, hc⟩

theorem Bare.append (h : Bare text) (rest : List Char) : Bare (text ++ rest) := by
  obtain ⟨c, more, rfl, hc⟩ := h
  exact ⟨c, more ++ rest, rfl, hc⟩

theorem Bare.signs (h : Bare text) (rest : List Char) :
    Grammar.signs (text ++ rest) = ([], text ++ rest) := by
  obtain ⟨c, more, rfl, -, hc⟩ := h
  simp [Grammar.signs, hc]

/-- The text is read as a factor. -/
structure Factored (inner : Rule Tree) (text : List Char) (tree : Tree) : Prop where
  bare : Bare text
  reads : ReadsTo (factor inner) 1 text tree

/-- The text is read as something accessible with accesses.  Further accesses may follow. -/
structure Accessed (inner : Rule Tree) (text : List Char) (tree : Tree) : Prop where
  bare : Bare text
  reads : ∃ start accesses, accesses.foldl Access.of start = tree ∧ ∀ rest, WordEnds rest →
    Declines word (text ++ rest) ∧ Declines dimension (text ++ rest) ∧ ∃ middle,
    Parses (accessible inner) (text ++ rest) start middle ∧
    Repeats (access inner) middle accesses rest

theorem access_declines (h : Starts (fun c => c ≠ '.' ∧ c ≠ '[' ∧ c ≠ '(') (skipBlank rest)) :
    Declines (access inner) rest := by
  refine .afterwards (show Parses blanks rest () (skipBlank rest) from rfl) ?_
  refine .both (.bind (.char (h.mono fun c hc => hc.1))) ?_
  exact .both (.bind (.char (h.mono fun c hc => hc.2.1))) (.bind (.char (h.mono fun c hc => hc.2.2)))

namespace Accessed

theorem start (hbare : Bare text)
    (h : ∀ rest, WordEnds rest → Declines word (text ++ rest) ∧ Declines dimension (text ++ rest) ∧
      Parses (accessible inner) (text ++ rest) tree rest) : Accessed inner text tree := by
  refine ⟨hbare, tree, [], rfl, fun rest hrest => ?_⟩
  obtain ⟨hword, hdimension, hreads⟩ := h rest hrest
  exact ⟨hword, hdimension, rest, hreads, .nil rest⟩

/-- One more access. -/
theorem append (h : Accessed inner text tree) {more : List Char} (last : Access)
    (hmore : ∀ rest, WordEnds (more ++ rest)) (hlength : 0 < more.length)
    (hlast : ∀ rest, WordEnds rest → Parses (access inner) (more ++ rest) last rest) :
    Accessed inner (text ++ more) (last.of tree) := by
  obtain ⟨start, accesses, rfl, hreads⟩ := h.reads
  refine ⟨h.bare.append more, start, accesses ++ [last], by simp, fun rest hrest => ?_⟩
  rw [List.append_assoc]
  obtain ⟨hword, hdimension, middle, hstart, haccesses⟩ := hreads _ (hmore rest)
  refine ⟨hword, hdimension, middle, hstart, haccesses.append ?_⟩
  refine .cons (hlast rest hrest) ?_ (.nil rest)
  rw [List.length_append]
  omega

theorem factored (h : Accessed inner text tree) : Factored inner text tree := by
  refine ⟨h.bare, fun rest hrest => ?_⟩
  obtain ⟨start, accesses, rfl, hreads⟩ := h.reads
  obtain ⟨hword, hdimension, middle, hstart, haccesses⟩ := hreads rest hrest.word
  -- nothing that is tried before an access chain is found here
  refine hword.orElse (hdimension.orElse (Parses.orElse ?_))
  exact hstart.bind ((haccesses.collect (access_declines hrest.access)).bind (.pure _ _))

end Accessed

/-- The text is read as a factor with signs before it. -/
def Signed (inner : Rule Tree) (text : List Char) (tree : Tree) : Prop :=
  ∃ ops operand core, Tree.signed ops operand = tree ∧ text = ops.flatMap Operator.symbol ++ core ∧
    (∀ op ∈ ops, op.isSign = true) ∧ Factored inner core operand

theorem signs_spelled {ops : List Operator} (hops : ∀ op ∈ ops, op.isSign = true) (h : Bare text)
    (rest : List Char) :
    Grammar.signs (ops.flatMap Operator.symbol ++ (text ++ rest)) = (ops, text ++ rest) := by
  induction ops with
  | nil => exact h.signs rest
  | cons op ops ih =>
    have hop : op.isSign = true := hops op List.mem_cons_self
    have ih := ih fun op hop => hops op (List.mem_cons_of_mem _ hop)
    rw [List.flatMap_cons, List.append_assoc]
    cases op
    case plus | minus | not => simp [Operator.symbol, Grammar.signs, unaryOperator?, ih]
    all_goals cases hop

namespace Signed

theorem opens (h : Signed inner text tree) : Opens text := by
  obtain ⟨ops, operand, core, rfl, rfl, hops, hcore⟩ := h
  cases ops with
  | nil => exact hcore.bare.opens
  | cons op ops =>
    have hop : op.isSign = true := hops op List.mem_cons_self
    rw [List.flatMap_cons, List.append_assoc]
    cases op
    case plus | minus | not => exact ⟨_, _, rfl, by decide⟩
    all_goals cases hop

/-- One more sign. -/
theorem cons (h : Signed inner text tree) {op : Operator} (hop : op.isSign = true) :
    Signed inner (op.symbol ++ text) (.sign op tree) := by
  obtain ⟨ops, operand, core, rfl, rfl, hops, hcore⟩ := h
  refine ⟨op :: ops, operand, core, rfl, ?_, ?_, hcore⟩
  · rw [List.flatMap_cons, List.append_assoc]
  · simpa using ⟨hop, hops⟩

theorem readsTo (h : Signed inner text tree) : ReadsTo (unary inner) 2 text tree := by
  intro rest hrest
  obtain ⟨ops, operand, core, rfl, rfl, hops, hcore⟩ := h
  have hfactor := hcore.reads rest (hrest.tighter (by decide))
  rw [List.append_assoc]
  refine (Parses.scan (congrArg some (signs_spelled hops hcore.bare rest))).bind ?_
  cases ops with
  | nil => exact hfactor
  | cons op ops => exact (hfactor.must _).bind (.pure _ _)

end Signed

/-- The text is read as a factor without signs. -/
theorem Factored.signed (h : Factored inner text tree) : Signed inner text tree :=
  ⟨[], tree, text, rfl, rfl, by simp, h⟩

/-! ## From level to level -/

/-- How the text of a tree of a level is read.  What may follow an operand of a chain, a further
link, would be taken for a part of it by the rule for the chain; so it is not said of a text that
this rule reads it, but by which first operand and which links. -/
def Form (inner : Rule Tree) : Nat → List Char → Tree → Prop
  | 0 => Accessed inner
  | 1 => Factored inner
  | 2 => Signed inner
  | 9 => Chained inner 8 Tree.fromRight
  | 10 => Inside (choice inner)
  | level + 1 => Chained inner level Tree.fromLeft

theorem questionMark_declines (h : Stops Rank.choice.level rest) : Declines questionMark rest := by
  refine .afterwards (show Parses blanks rest () (skipBlank rest) from rfl) (.char ?_)
  intro c hc hmark
  have hnone := h.operator 10 (Nat.le_refl _)
  cases hskip : skipBlank rest with
  | nil => simp [hskip] at hc
  | cons d more =>
    obtain rfl : d = c := by simpa [hskip] using hc
    rw [hskip, hmark] at hnone
    cases hnone

namespace Form

variable {level : Nat}

theorem up (h : Form inner level text tree) (hlevel : level < 10) :
    Form inner (level + 1) text tree := by
  -- a text of the one level is a chain without links of the next
  match level, h with
  | 0, h => exact Accessed.factored h
  | 1, h => exact Factored.signed h
  | 2, h => exact Chained.single (Signed.opens h) (Signed.readsTo h) rfl
  | 3, h | 4, h | 5, h | 6, h | 7, h | 8, h =>
    exact Chained.single (Chained.opens h) (Chained.readsTo h) rfl
  | 9, h =>
    refine ⟨Chained.opens h, fun rest hrest => ?_⟩
    have hcondition := Chained.readsTo h rest (hrest.tighter (by decide))
    exact Parses.bind hcondition ((questionMark_declines hrest).optional.bind (.pure _ _))
  | level + 10, _ => omega

/-- What is read as a tree of one level can be read as one of any looser level. -/
theorem raise {level' : Nat} (h : Form inner level text tree) (hle : level ≤ level')
    (hlevel : level' ≤ 10) :
    Form inner level' text tree := by
  induction hle with
  | refl => exact h
  | step _ ih => exact (ih (Nat.le_of_succ_le hlevel)).up hlevel

theorem iff_chained (hlow : 2 ≤ level) (hhigh : level ≤ 7) :
    Form inner (level + 1) text tree ↔ Chained inner level Tree.fromLeft text tree := by
  obtain rfl | rfl | rfl | rfl | rfl | rfl :
    level = 2 ∨ level = 3 ∨ level = 4 ∨ level = 5 ∨ level = 6 ∨ level = 7 := by omega
  all_goals exact Iff.rfl

theorem opens (h : Form inner level text tree) (hlevel : level ≤ 10) : Opens text :=
  Inside.opens (h.raise hlevel (Nat.le_refl _))

/-- The text of an operand of a chain is read by its rule. -/
theorem readsTo (h : Form inner level text tree) (hlow : 2 ≤ level) (hhigh : level ≤ 8) :
    ReadsTo (ranked inner level) level text tree := by
  obtain rfl | rfl | rfl | rfl | rfl | rfl | rfl :
    level = 2 ∨ level = 3 ∨ level = 4 ∨ level = 5 ∨ level = 6 ∨ level = 7 ∨ level = 8 := by omega
  · exact Signed.readsTo h
  all_goals exact Chained.readsTo h

end Form

end LiveTemplate.TreeGrammar
