import LiveTemplate.Proofs.Grammar.Construct
/-!
# What each rule leaves behind

The laws of `Construct` compare a rule with the reader of trees.  Here they are read as laws about
the stacks alone: whatever waits when a rule is tried, it waits there still when the rule is done,
and what has come on top is counted.  `Part` is the list of the rules, so that one statement covers
all of them.

Most rules add one operand.  The others:

* a template adds one operand for each segment, and a list one for each element;
* an entry of a map adds its key and its value;
* an access takes the newest operand and puts another one in its place;
* a chain that has not been folded yet adds its operands and leaves its operators waiting.

What a rule counts is what the reader of trees finds at the same place.
-/

set_option autoImplicit false

namespace LiveTemplate

namespace Regions

variable {α : Type}

/-- Afterwards the same waits as before, only that the newest operands, a number of them, have
given way to a number of others, and that some operators wait on top. -/
structure Grown (before after : Regions α) (taken added : Nat) (ops : List Operator) : Prop where
  outer : after.outer = before.outer
  operators : after.current.operators = ops ++ before.current.operators
  operands : ∃ old new kept, before.current.operands = old ++ kept ∧
    after.current.operands = new ++ kept ∧ old.length = taken ∧ new.length = added

theorem grown_pushAll (regions : Regions α) (operands : List α) :
    regions.Grown (regions.pushAll operands) 0 operands.length [] where
  outer := by simp
  operators := by simp
  operands := ⟨[], operands.reverse, regions.current.operands, by simp, by simp, rfl, by simp⟩

theorem grown_push_push (regions : Regions α) (old new : α) :
    (regions.push old).Grown (regions.push new) 1 1 [] where
  outer := rfl
  operators := rfl
  operands := ⟨[old], [new], regions.current.operands, rfl, rfl, rfl, rfl⟩

theorem grown_pushChain (regions : Regions Term) (first : Tree) (rest : List (Operator × Tree)) :
    regions.Grown (regions.pushChain first rest) 0 (rest.length + 1)
      (rest.map fun link => link.1).reverse where
  outer := rfl
  operators := rfl
  operands := by
    refine ⟨[], (rest.map fun link => link.2.term).reverse ++ [first.term],
      regions.current.operands, rfl, ?_, rfl, ?_⟩
    · simp [pushChain]
    · simp

end Regions

namespace Grammar

/-! ## The rules -/

/-- The ranks of binary operators, each read as a chain of the next tighter one. -/
inductive Level where
  | term
  | sum
  | comparison
  | equality
  | conjunction
  | disjunction
  | coalescing
deriving DecidableEq, Repr

namespace Level

def rank : Level → Rank
  | term => .term
  | sum => .sum
  | comparison => .comparison
  | equality => .equality
  | conjunction => .conjunction
  | disjunction => .disjunction
  | coalescing => .coalescing

def operator? : Level → List Char → Option (Operator × List Char)
  | term => termOperator?
  | sum => sumOperator?
  | comparison => comparisonOperator?
  | equality => equalityOperator?
  | conjunction => andOperator?
  | disjunction => orOperator?
  | coalescing => coalesceOperator?

/-- The mistake of an operator without a right operand. -/
def missing : Level → Mistake
  | term => .operandAfterTerm
  | sum => .operandAfterSum
  | comparison => .operandAfterComparison
  | equality => .operandAfterEquality
  | conjunction => .operandAfterAnd
  | disjunction => .operandAfterOr
  | coalescing => .operandAfterCoalesce

end Level

/-- The rules that emit steps. -/
inductive Part where
  | template
  | segment (quote : Option Char)
  | binding
  | rawText (quote : Option Char)
  | quoted (quote : Char) (unterminated : Mistake)
  | anyQuoted
  | list (missing : Mistake)
  | group
  | array
  | entry
  | entries
  | map
  | word
  | dimension
  | number
  | name
  | resource
  | field
  | index
  | call
  | access
  | accessible
  | accessChain
  | factor
  | unary
  /-- A chain of operands of the next tighter level, not folded yet. -/
  | chain (level : Level)
  | ranked (level : Level)
  | choice
  | expression
deriving DecidableEq, Repr

/-- What the operands of a level are. -/
def Level.operand : Level → Part
  | term => .unary
  | sum => .ranked .term
  | comparison => .ranked .sum
  | equality => .ranked .comparison
  | conjunction => .ranked .equality
  | disjunction => .ranked .conjunction
  | coalescing => .ranked .disjunction

/-- A level with the rule for an expression inside. -/
def Level.rule (inner : Rule Unit) : Level → Rule Unit
  | term => Grammar.term inner
  | sum => Grammar.sum inner
  | comparison => Grammar.comparison inner
  | equality => Grammar.equality inner
  | conjunction => Grammar.conjunction inner
  | disjunction => Grammar.disjunction inner
  | coalescing => Grammar.coalescing inner

@[inherit_doc Level.rule]
def Level.mirror (inner : Rule Tree) : Level → Rule Tree
  | term => TreeGrammar.term inner
  | sum => TreeGrammar.sum inner
  | comparison => TreeGrammar.comparison inner
  | equality => TreeGrammar.equality inner
  | conjunction => TreeGrammar.conjunction inner
  | disjunction => TreeGrammar.disjunction inner
  | coalescing => TreeGrammar.coalescing inner

/-- The operands of a level with the rule for an expression inside. -/
def Level.operandRule (inner : Rule Unit) : Level → Rule Unit
  | term => Grammar.unary inner
  | sum => rule inner term
  | comparison => rule inner sum
  | equality => rule inner comparison
  | conjunction => rule inner equality
  | disjunction => rule inner conjunction
  | coalescing => rule inner disjunction

@[inherit_doc Level.operandRule]
def Level.operandMirror (inner : Rule Tree) : Level → Rule Tree
  | term => TreeGrammar.unary inner
  | sum => mirror inner term
  | comparison => mirror inner sum
  | equality => mirror inner comparison
  | conjunction => mirror inner equality
  | disjunction => mirror inner conjunction
  | coalescing => mirror inner disjunction

/-- The rule of a part, in which a number of expressions may be inside one another. -/
def Part.rule (depth : Nat) : Part → Rule Unit
  | template => .many (.orElse (Grammar.binding (Grammar.expression depth)) (Grammar.rawText none))
  | segment quote =>
    .orElse (Grammar.binding (Grammar.expression depth)) (Grammar.rawText quote)
  | binding => Grammar.binding (Grammar.expression depth)
  | rawText quote => Grammar.rawText quote
  | quoted quote unterminated => Grammar.quoted (Grammar.expression depth) quote unterminated
  | anyQuoted => Grammar.anyQuoted (Grammar.expression depth)
  | list missing => expressionList (Grammar.expression depth) missing
  | group => Grammar.group (Grammar.expression depth)
  | array => Grammar.array (Grammar.expression depth)
  | entry => mapEntry (Grammar.expression depth)
  | entries => mapEntries (Grammar.expression depth)
  | map => Grammar.map (Grammar.expression depth)
  | word => Grammar.word
  | dimension => Grammar.dimension
  | number => Grammar.number
  | name => Grammar.name
  | resource => Grammar.resource
  | field => fieldAccess
  | index => indexAccess (Grammar.expression depth)
  | call => Grammar.call (Grammar.expression depth)
  | access => Grammar.access (Grammar.expression depth)
  | accessible => Grammar.accessible (Grammar.expression depth)
  | accessChain => Grammar.accessChain (Grammar.expression depth)
  | factor => Grammar.factor (Grammar.expression depth)
  | unary => Grammar.unary (Grammar.expression depth)
  | chain level =>
    Grammar.chain (level.operandRule (Grammar.expression depth)) level.operator? level.missing
  | ranked level => level.rule (Grammar.expression depth)
  | choice => Grammar.choice (Grammar.expression depth)
  | expression => Grammar.expression depth

/-! ## What they count -/

/-- What a rule reads at the beginning of a text, or something else if it is not done. -/
def Rule.found {β : Type} (rule : Rule β) (otherwise : β) (text : List Char) : β :=
  match rule text with
  | .done b _ _ => b
  | _ => otherwise

/-- The operators of a chain, each with its right operand. -/
def Level.links (depth : Nat) (level : Level) (text : List Char) : List (Operator × Tree) :=
  (Rule.found (TreeGrammar.chain (level.operandMirror (TreeGrammar.expression depth))
    level.operator? level.missing) (.leaf .null, []) text).2

namespace Part

/-- The number of operands that the part takes away. -/
def taken : Part → Nat
  | field | index | call | access => 1
  | _ => 0

/-- The number of operands that the part adds. -/
def added (depth : Nat) (text : List Char) : Part → Nat
  | template =>
    (Rule.found (TreeGrammar.segments (TreeGrammar.expression depth) none) [] text).length
  | list missing =>
    (Rule.found (TreeGrammar.listed (TreeGrammar.expression depth) missing) [] text).length
  | entry => 2
  | entries =>
    2 * (Rule.found (TreeGrammar.listed (TreeGrammar.mapEntry (TreeGrammar.expression depth))
      .mapKey) [] text).length
  | chain level => (level.links depth text).length + 1
  | _ => 1

/-- The operators that the part leaves waiting, the newest first. -/
def pending (depth : Nat) (text : List Char) : Part → List Operator
  | chain level => ((level.links depth text).map fun link => link.1).reverse
  | _ => []

/-- The loosest rank whose operators the part may fold. -/
def rank : Part → Rank
  | unary => .unary
  | chain level | ranked level => level.rank
  | list _ | entry | entries | choice | expression => .coalescing
  | _ => .access

/-- The part may be tried: there is an operand where it takes one, and no operator waits that it
might fold by mistake. -/
structure Ready {α : Type} (part : Part) (regions : Regions α) : Prop where
  operands : part.taken ≤ regions.current.operands.length
  operators : regions.Clear part.rank

end Part

/-! ## The laws as laws about the stacks -/

/-- From a state of the stacks the rule declines only before it emits anything; done, it leads to
a state that fits the text; and the machine can take what it emits, however it ends. -/
def Commits (start : Regions Term) (rule : Rule Unit) (fits : List Char → Regions Term → Prop) :
    Prop :=
  ∀ text, match rule text with
    | .done () _ script => ∃ last, Takes start script last ∧ fits text last
    | .declined script => script = []
    | .failed _ _ script => ∃ last, Takes start script last

theorem Mirrors.commits {β : Type} {start : Regions Term} {rule : Rule Unit} {mirror : Rule β}
    {goal : Unit → β → Regions Term → Prop} {fits : List Char → Regions Term → Prop}
    (h : Mirrors .clean start rule mirror goal) (otherwise : β)
    (hfits : ∀ text last, goal () (mirror.found otherwise text) last → fits text last) :
    Commits start rule fits := by
  intro text
  have hrule := h text
  have htext := hfits text
  unfold Rule.found at htext
  revert hrule htext
  generalize rule text = outcome, mirror text = outcome'
  intro hrule htext
  cases hrule with
  | done ht hgoal => exact ⟨_, ht, htext _ hgoal⟩
  | declined hd => exact hd
  | failed ht => exact ⟨_, ht⟩

variable {start : Regions Term} {rule : Rule Unit} {rank : Rank}

theorem Reads.commits {β : Type} {terms : β → List Term} {mirror : Rule β}
    (h : Reads rank terms rule mirror) (hc : start.Clear rank) (otherwise : β) :
    Commits start rule fun text last =>
      start.Grown last 0 (terms (mirror.found otherwise text)).length [] := by
  refine (h start hc).commits otherwise ?_
  rintro text _ rfl
  exact Regions.grown_pushAll start _

theorem Reads.commits_one {mirror : Rule Tree} (h : Reads rank one rule mirror)
    (hc : start.Clear rank) : Commits start rule fun _ last => start.Grown last 0 1 [] :=
  h.commits hc (.leaf .null)

/-- A rule that adds the terms of all elements of a list adds a number of them for each. -/
theorem Mirrors.commits_flatMap {β : Type} {terms : β → List Term} {mirror : Rule (List β)}
    (h : Mirrors .never start rule mirror fun _ found last =>
      last = start.pushAll (found.flatMap terms)) {n : Nat} (hn : ∀ b, (terms b).length = n) :
    Commits start rule fun text last => start.Grown last 0 (n * (mirror.found [] text).length) [] := by
  refine Mirrors.commits h.sure [] ?_
  rintro text _ rfl
  have hlength : ((mirror.found [] text).flatMap terms).length = n * (mirror.found [] text).length := by
    simp [List.length_flatMap, hn, Nat.mul_comm]
  rw [← hlength]
  exact Regions.grown_pushAll start _

theorem Extends.commits {mirror : Rule Access} (h : Extends rule mirror)
    (hne : 1 ≤ start.current.operands.length) :
    Commits start rule fun _ last => start.Grown last 1 1 [] := by
  obtain ⟨⟨operands, operators⟩, outer⟩ := start
  rcases operands with _ | ⟨container, older⟩
  · simp at hne
  · refine (h ⟨⟨older, operators⟩, outer⟩ container).commits (.field "") ?_
    rintro text _ rfl
    exact Regions.grown_push_push ⟨⟨older, operators⟩, outer⟩ container _

/-! ### Levels -/

section

variable {inner : Rule Unit} {inner' : Rule Tree}

theorem Level.reads (hin : Reads .coalescing one inner inner') (level : Level) :
    Reads level.rank one (level.rule inner) (level.mirror inner') := by
  cases level with
  | term => exact term_reads hin
  | sum => exact sum_reads hin
  | comparison => exact comparison_reads hin
  | equality => exact equality_reads hin
  | conjunction => exact conjunction_reads hin
  | disjunction => exact disjunction_reads hin
  | coalescing => exact coalescing_reads hin

theorem Level.operand_reads (hin : Reads .coalescing one inner inner') (level : Level) :
    Reads level.operand.rank one (level.operandRule inner) (level.operandMirror inner') := by
  cases level with
  | term => exact unary_reads hin
  | sum => exact term_reads hin
  | comparison => exact sum_reads hin
  | equality => exact comparison_reads hin
  | conjunction => exact equality_reads hin
  | disjunction => exact conjunction_reads hin
  | coalescing => exact disjunction_reads hin

end

theorem Level.operand_rank (level : Level) : level.operand.rank.level < level.rank.level := by
  cases level <;> decide

theorem Level.operator_rank (level : Level) {text rest : List Char} {op : Operator}
    (h : level.operator? text = some (op, rest)) : op.rank = level.rank := by
  cases level with
  | term => exact termOperator_rank h
  | sum => exact sumOperator_rank h
  | comparison => exact comparisonOperator_rank h
  | equality => exact equalityOperator_rank h
  | conjunction => exact andOperator_rank h
  | disjunction => exact orOperator_rank h
  | coalescing => exact coalesceOperator_rank h

/-- The operators of a chain are those of its level. -/
theorem Level.links_rank (level : Level) (depth : Nat) (text : List Char) :
    ∀ link ∈ level.links depth text, link.1.rank = level.rank := by
  have hop : ∀ text op rest, level.operator? text = some (op, rest) → op.rank = level.rank :=
    fun _ _ _ => level.operator_rank
  have hchain := chain_reads (level.operand_reads (expression_reads depth)) level.operand_rank hop
    level.missing (Regions.clear_empty level.rank) text
  unfold links Rule.found
  revert hchain
  generalize Grammar.chain _ _ _ text = outcome, TreeGrammar.chain _ _ _ text = outcome'
  intro hchain
  cases hchain with
  | done _ hgoal => exact hgoal.2
  | declined _ => simp
  | failed _ => simp

theorem Level.operand_rule (level : Level) (depth : Nat) :
    level.operand.rule depth = level.operandRule (Grammar.expression depth) := by
  cases level <;> rfl

/-! ### All rules -/

/-- What a part leaves waiting, its caller folds. -/
theorem Part.pending_rank (part : Part) (depth : Nat) (text : List Char) :
    ∀ op ∈ part.pending depth text, op.rank = part.rank := by
  cases part with
  | chain level =>
    intro op hop
    obtain ⟨link, hlink, rfl⟩ := List.mem_map.mp (List.mem_reverse.mp hop)
    exact level.links_rank depth text link hlink
  | _ =>
    intro op hop
    cases hop

theorem Part.commits (part : Part) (depth : Nat) (h : part.Ready start) :
    Commits start (part.rule depth) fun text last =>
      start.Grown last part.taken (part.added depth text) (part.pending depth text) := by
  have hin := expression_reads depth
  have hc := h.operators
  cases part with
  | template =>
    have hsegments := (many_reads (segment_reads hin none) hc).commits_flatMap fun _ => rfl
    simp only [Nat.one_mul] at hsegments
    exact hsegments
  | segment quote => exact (segment_reads hin quote).commits_one hc
  | binding => exact (binding_reads hin).commits_one hc
  | rawText quote => exact (rawText_reads quote).commits_one hc
  | quoted quote unterminated => exact (quoted_reads hin quote unterminated).commits_one hc
  | anyQuoted => exact (anyQuoted_reads hin).commits_one hc
  | list missing =>
    have helements := (listed_reads hin missing hc).commits_flatMap fun _ => rfl
    simp only [Nat.one_mul] at helements
    exact helements
  | group => exact (group_reads hin).commits_one hc
  | array => exact (array_reads hin).commits_one hc
  | entry => exact (mapEntry_reads hin).commits hc (.leaf .null, .leaf .null)
  | entries => exact (listed_reads (mapEntry_reads hin) .mapKey hc).commits_flatMap fun _ => rfl
  | map => exact (map_reads hin).commits_one hc
  | word => exact word_reads.commits_one hc
  | dimension => exact dimension_reads.commits_one hc
  | number => exact number_reads.commits_one hc
  | name => exact name_reads.commits_one hc
  | resource => exact resource_reads.commits_one hc
  | field => exact fieldAccess_extends.commits h.operands
  | index => exact (indexAccess_extends hin).commits h.operands
  | call => exact (call_extends hin).commits h.operands
  | access => exact (access_extends hin).commits h.operands
  | accessible => exact (accessible_reads hin).commits_one hc
  | accessChain => exact (accessChain_reads hin).commits_one hc
  | factor => exact (factor_reads hin).commits_one hc
  | unary => exact (unary_reads hin).commits_one hc
  | chain level =>
    have hop : ∀ text op rest, level.operator? text = some (op, rest) → op.rank = level.rank :=
      fun _ _ _ => level.operator_rank
    have hchain := chain_reads (level.operand_reads hin) level.operand_rank hop level.missing hc
    refine hchain.commits (.leaf .null, []) ?_
    rintro text _ ⟨rfl, -⟩
    exact Regions.grown_pushChain start _ _
  | ranked level => exact (level.reads hin).commits_one hc
  | choice => exact (choice_reads hin).commits_one hc
  | expression => exact hin.commits_one hc

end Grammar

end LiveTemplate
