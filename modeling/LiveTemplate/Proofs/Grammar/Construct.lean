import LiveTemplate.Proofs.Grammar.Mirror
import LiveTemplate.Proofs.Syntax.Chain
/-!
# Every construct is read in step

One law for each rule of the grammar: it reads what its tree reader reads, and the steps it emits
leave the regions as they were but for the terms of what has been read, which are the newest
operands now.  `Reads rank terms rule mirror` is the form of these laws.  It asks that no operator
waits that binds as tightly as the rank or more tightly, because the rule is going to fold the
operators of these ranks.

The laws follow the grammar from the inside to the outside.  All of them assume the law for inner
expressions, and the last one closes the circle by induction on the depth.
-/

set_option autoImplicit false

namespace LiveTemplate.Grammar

variable {α β : Type}

/-- The rule reads what the other one reads and adds the terms of it to the current region, unless
an operator waits that does not bind more loosely than the rank. -/
def Reads (rank : Rank) (terms : β → List Term) (rule : Rule Unit) (mirror : Rule β) : Prop :=
  ∀ start : Regions Term, start.Clear rank →
    Mirrors .clean start rule mirror fun _ b last => last = start.pushAll (terms b)

/-- The one term of a tree. -/
def one (tree : Tree) : List Term := [tree.term]

/-- The two terms of an entry. -/
def two (entry : Tree × Tree) : List Term := [entry.1.term, entry.2.term]

theorem Reads.orElse {rank : Rank} {terms : β → List Term} {rule other : Rule Unit}
    {mirror other' : Rule β} (h : Reads rank terms rule mirror) (k : Reads rank terms other other') :
    Reads rank terms (Rule.orElse rule other) (Rule.orElse mirror other') :=
  fun start hc => (h start hc).orElse (k start hc)

/-- In a region of its own a rule may fold what it likes. -/
theorem Reads.inside {rank : Rank} {terms : β → List Term} {rule : Rule Unit} {mirror : Rule β}
    (h : Reads rank terms rule mirror) (start : Regions Term) :
    Mirrors .clean start.enter rule mirror fun _ b last => last = start.enter.pushAll (terms b) :=
  h _ (Regions.clear_enter _ _)

variable {inner : Rule Unit} {inner' : Rule Tree}

/-! ## Lists -/

/-- A rule that is repeated adds the terms of all that it reads. -/
theorem many_reads {rank : Rank} {terms : β → List Term} {rule : Rule Unit} {mirror : Rule β}
    (h : Reads rank terms rule mirror) {start : Regions Term} (hc : start.Clear rank) :
    Mirrors .never start (Rule.many rule) (Rule.collect mirror)
      fun _ found last => last = start.pushAll (found.flatMap terms) := by
  refine .many (fun found last => last = start.pushAll (found.flatMap terms)) ?_ rfl
  rintro found _ rfl
  refine (h _ (hc.pushAll _)).mono ?_
  rintro _ b _ rfl
  simp [Regions.pushAll_append]

/-- Elements with commas between them add the terms of all elements. -/
theorem listed_reads {rank : Rank} {terms : β → List Term} {rule : Rule Unit} {mirror : Rule β}
    (h : Reads rank terms rule mirror) (missing : Mistake) {start : Regions Term}
    (hc : start.Clear rank) :
    Mirrors .never start (expressionList rule missing) (TreeGrammar.listed mirror missing)
      fun _ found last => last = start.pushAll (found.flatMap terms) := by
  unfold expressionList TreeGrammar.listed
  refine (h start hc).optional.bind ?_
  rintro (_ | _) (_ | first) middle hfirst
  · obtain rfl : middle = start := hfirst
    exact .pure rfl
  · exact hfirst.elim
  · exact hfirst.elim
  · obtain rfl : middle = start.pushAll (terms first) := hfirst
    -- the rest is a repetition of its own, of elements after commas
    have hmore : Reads rank terms
        (do Rule.blanks; Rule.char ','; Rule.blanks; Rule.must missing rule)
        (do Rule.blanks; Rule.char ','; Rule.blanks; Rule.must missing mirror) := fun start hc =>
      .blanks (.token (Rule.silent_char ',') fun _ _ => .blanks ((h start hc).must missing).sure)
    refine (many_reads hmore (hc.pushAll _)).reform ?_
    rintro _ rest last rfl
    exact ⟨_, rfl, by rw [List.flatMap_cons, Regions.pushAll_append]⟩

/-! ## Regions -/

theorem binding_reads (hin : Reads .coalescing one inner inner') :
    Reads .access one (binding inner) (TreeGrammar.binding inner') := by
  intro start _
  unfold binding TreeGrammar.binding
  -- with or without content, there is one operand in the region when its end is read
  have hend : ∀ content : Tree, Mirrors .never (start.enter.push content.term)
      (do Rule.blanks; Rule.must .bindingEnd (Rule.char '\x7d'); Rule.emit (.leave .single))
      (do Rule.blanks; Rule.must .bindingEnd (Rule.char '\x7d'); return Tree.binding content)
      fun _ tree last => last = start.pushAll (one tree) := fun content =>
    .blanks (.mustSilent (Rule.silent_char _) _ fun _ => .emitLast (.leaveSingle start content.term) rfl)
  refine .token (Rule.silent_scan _) fun _ _ => .emit (.enter start) (.blanks ?_)
  refine (hin.inside start).optional.bind ?_
  rintro (_ | _) (_ | content) middle hcontent
  · obtain rfl : middle = start.enter := hcontent
    exact .emit (.push _ _) (hend (.leaf (.text "")))
  · exact hcontent.elim
  · exact hcontent.elim
  · obtain rfl : middle = start.enter.push content.term := hcontent
    exact hend content

theorem rawText_reads (quote : Option Char) :
    Reads .access one (rawText quote) (TreeGrammar.rawText quote) := fun start _ =>
  .token (Rule.silent_scan _) fun _ _ => .emitLast (.push start _) rfl

theorem segment_reads (hin : Reads .coalescing one inner inner') (quote : Option Char) :
    Reads .access one (Rule.orElse (binding inner) (rawText quote))
      (Rule.orElse (TreeGrammar.binding inner') (TreeGrammar.rawText quote)) :=
  (binding_reads hin).orElse (rawText_reads quote)

theorem quoted_reads (hin : Reads .coalescing one inner inner') (quote : Char)
    (unterminated : Mistake) :
    Reads .access one (quoted inner quote unterminated)
      (TreeGrammar.quoted inner' quote unterminated) := by
  intro start _
  unfold quoted TreeGrammar.quoted
  refine .token (Rule.silent_char _) fun _ _ => .emit (.enter start) ?_
  refine (many_reads (segment_reads hin (some quote)) (Regions.clear_enter _ start)).bind ?_
  rintro _ segments _ rfl
  refine .mustSilent (Rule.silent_char _) _ fun _ => .emitLast (.leaveText start _) ?_
  show start.push (.joined (segments.flatMap one)) = start.push (.joined (Tree.terms segments))
  rw [Tree.terms_eq_flatMap]
  rfl

theorem anyQuoted_reads (hin : Reads .coalescing one inner inner') :
    Reads .access one (anyQuoted inner) (TreeGrammar.anyQuoted inner') :=
  (quoted_reads hin _ _).orElse (quoted_reads hin _ _)

theorem group_reads (hin : Reads .coalescing one inner inner') :
    Reads .access one (group inner) (TreeGrammar.group inner') := by
  intro start _
  unfold group TreeGrammar.group
  refine .token (Rule.silent_char _) fun _ _ => .emit (.enter start) (.blanks ?_)
  refine ((hin.inside start).must _).bind ?_
  rintro _ content _ rfl
  exact .blanks (.mustSilent (Rule.silent_char _) _ fun _ =>
    .emitLast (.leaveSingle start content.term) rfl)

theorem array_reads (hin : Reads .coalescing one inner inner') :
    Reads .access one (array inner) (TreeGrammar.array inner') := by
  intro start _
  unfold array TreeGrammar.array
  refine .token (Rule.silent_char _) fun _ _ => .emit (.enter start) (.blanks ?_)
  refine (listed_reads hin _ (Regions.clear_enter _ start)).bind ?_
  rintro _ items _ rfl
  refine .blanks (.mustSilent (Rule.silent_char _) _ fun _ => .emitLast (.leaveList start _) ?_)
  show start.push (.apply .array (items.flatMap one)) = start.push (.apply .array (Tree.terms items))
  rw [Tree.terms_eq_flatMap]
  rfl

theorem mapEntry_reads (hin : Reads .coalescing one inner inner') :
    Reads .coalescing two (mapEntry inner) (TreeGrammar.mapEntry inner') := by
  intro start hc
  unfold mapEntry TreeGrammar.mapEntry
  refine (anyQuoted_reads hin start (hc.tighter (by decide))).bind ?_
  rintro _ key _ rfl
  refine .blanks (.mustSilent (Rule.silent_char _) _ fun _ => .blanks ?_)
  refine ((hin _ (hc.push key.term)).must _).reform ?_
  rintro _ value _ rfl
  exact ⟨_, rfl, rfl⟩

/-- The entries of a map are listed as expressions are. -/
theorem mapEntries_eq (inner : Rule Unit) :
    mapEntries inner = expressionList (mapEntry inner) .mapKey := rfl

theorem map_reads (hin : Reads .coalescing one inner inner') :
    Reads .access one (map inner) (TreeGrammar.map inner') := by
  intro start hc
  unfold map TreeGrammar.map
  refine .token (Rule.silent_char _) fun _ _ => .emit (.operator start .map) (.emit (.enter _) ?_)
  rw [mapEntries_eq]
  refine .blanks ((listed_reads (mapEntry_reads hin) _ (Regions.clear_enter _ _)).bind ?_)
  rintro _ entries _ rfl
  refine .blanks (.mustSilent (Rule.silent_char _) _ fun _ => .emit (.leaveList _ _) ?_)
  -- the flat array is the operand of the operator that was put before the region
  refine .emitLast (Takes.foldMap hc _) ?_
  show _ = start.push (.apply .map [.apply .array (Tree.entryTerms entries)])
  rw [Tree.entryTerms_eq_flatMap]
  rfl

/-! ## Factors -/

theorem word_reads : Reads .access one word TreeGrammar.word := fun start _ =>
  .token (Rule.silent_scan _) fun _ _ => .token (Rule.silent_scan _) fun _ _ =>
    .emitLast (.push start _) rfl

theorem dimension_reads : Reads .access one dimension TreeGrammar.dimension := fun start _ =>
  .token Rule.silent_numeral fun _ _ => .token (Rule.silent_scan _) fun _ _ =>
    .token (Rule.silent_scan _) fun _ _ => .emitLast (.push start _) rfl

theorem number_reads : Reads .access one number TreeGrammar.number := fun start _ =>
  .token Rule.silent_numeral fun _ _ => .emitLast (.push start _) rfl

theorem name_reads : Reads .access one name TreeGrammar.name := by
  intro start _
  unfold name TreeGrammar.name
  refine .token (Rule.silent_scan _) fun letters _ => ?_
  by_cases hr : reserved.contains letters = true
  · rw [if_pos hr, if_pos hr]
    exact .decline
  · rw [if_neg hr, if_neg hr]
    exact .emitLast (.push start _) rfl

theorem resource_reads : Reads .access one resource TreeGrammar.resource := fun start _ =>
  .token (Rule.silent_char _) fun _ _ => .token (Rule.silent_scan _) fun _ _ =>
    .emitLast (.push start _) rfl

theorem accessible_reads (hin : Reads .coalescing one inner inner') :
    Reads .access one (accessible inner) (TreeGrammar.accessible inner') :=
  (group_reads hin).orElse (resource_reads.orElse (name_reads.orElse
    ((array_reads hin).orElse (map_reads hin))))

/-- An access makes a new operand of the newest one. -/
def Extends (rule : Rule Unit) (mirror : Rule Access) : Prop :=
  ∀ (start : Regions Term) (container : Term),
    Mirrors .clean (start.push container) rule mirror
      fun _ access last => last = start.push (access.term container)

theorem Extends.orElse {rule other : Rule Unit} {mirror other' : Rule Access}
    (h : Extends rule mirror) (k : Extends other other') :
    Extends (Rule.orElse rule other) (Rule.orElse mirror other') :=
  fun start container => (h start container).orElse (k start container)

theorem fieldAccess_extends : Extends fieldAccess TreeGrammar.fieldAccess := fun start container =>
  .token (Rule.silent_char _) fun _ _ => .blanks (.token (Rule.silent_scan _) fun _ _ =>
    .emit (.operator _ .field) (.emit (.push _ _)
      (.emitLast (Takes.foldAccess start rfl container _) rfl)))

theorem indexAccess_extends (hin : Reads .coalescing one inner inner') :
    Extends (indexAccess inner) (TreeGrammar.indexAccess inner') := by
  intro start container
  unfold indexAccess TreeGrammar.indexAccess
  refine .token (Rule.silent_char _) fun _ _ => .emit (.operator _ .index) (.emit (.enter _) ?_)
  refine .blanks (((hin.inside _).must _).bind ?_)
  rintro _ key _ rfl
  exact .blanks (.mustSilent (Rule.silent_char _) _ fun _ => .emit (.leaveSingle _ key.term)
    (.emitLast (Takes.foldAccess start rfl container _) rfl))

theorem call_extends (hin : Reads .coalescing one inner inner') :
    Extends (call inner) (TreeGrammar.call inner') := by
  intro start container
  unfold call TreeGrammar.call
  refine .token (Rule.silent_char _) fun _ _ => .emit (.operator _ .call) (.emit (.enter _) ?_)
  refine .blanks ((listed_reads hin _ (Regions.clear_enter _ _)).bind ?_)
  rintro _ arguments _ rfl
  refine .blanks (.mustSilent (Rule.silent_char _) _ fun _ => .emit (.leaveList _ _) ?_)
  refine .emitLast (Takes.foldAccess start rfl container _) ?_
  show _ = start.push (.apply .call [container, .apply .array (Tree.terms arguments)])
  rw [Tree.terms_eq_flatMap]
  rfl

theorem access_extends (hin : Reads .coalescing one inner inner') :
    Extends (access inner) (TreeGrammar.access inner') := fun start container =>
  .blanks (fieldAccess_extends.orElse ((indexAccess_extends hin).orElse (call_extends hin))
    start container)

theorem accessChain_reads (hin : Reads .coalescing one inner inner') :
    Reads .access one (accessChain inner) (TreeGrammar.accessChain inner') := by
  intro start hc
  unfold accessChain TreeGrammar.accessChain
  refine (accessible_reads hin start hc).bind ?_
  rintro _ container _ rfl
  -- the accesses so far have made one operand of the container
  have hmany : Mirrors .never (start.push container.term) (Rule.many (access inner))
      (Rule.collect (TreeGrammar.access inner'))
      fun _ found last => last = start.push (found.foldl Access.of container).term := by
    refine .many (fun found last => last = start.push (found.foldl Access.of container).term) ?_ rfl
    rintro found _ rfl
    refine (access_extends hin start _).mono ?_
    rintro _ access _ rfl
    rw [List.foldl_append, List.foldl_cons, List.foldl_nil, Access.term_of]
  refine hmany.reform ?_
  rintro _ accesses _ rfl
  exact ⟨_, rfl, rfl⟩

theorem factor_reads (hin : Reads .coalescing one inner inner') :
    Reads .access one (factor inner) (TreeGrammar.factor inner') :=
  word_reads.orElse (dimension_reads.orElse ((accessChain_reads hin).orElse
    (number_reads.orElse (anyQuoted_reads hin))))

/-! ## Ranks -/

theorem signs_rank (text : List Char) : ∀ op ∈ (signs text).1, op.rank = .unary := by
  induction text with
  | nil => intro op hop; cases hop
  | cons c rest ih =>
    intro op hop
    unfold signs at hop
    unfold unaryOperator? at hop
    split at hop
    · rename_i sign _ hsign
      rcases List.mem_cons.mp hop with rfl | hop
      · split at hsign <;> cases hsign <;> rfl
      · exact ih op hop
    · cases hop

theorem emitOperators_eq (ops : List Operator) (text : List Char) :
    emitOperators ops text = .done () text (ops.map .operator) := by
  induction ops with
  | nil => rfl
  | cons op rest ih =>
    show (emitOperators rest text).after [.operator op] = _
    rw [ih]
    rfl

theorem unary_reads (hin : Reads .coalescing one inner inner') :
    Reads .unary one (unary inner) (TreeGrammar.unary inner') := by
  intro start hc
  unfold unary TreeGrammar.unary
  refine .token (Rule.silent_scan _) fun ops hops => ?_
  have hrank : ∀ op ∈ ops, op.rank = .unary := by
    obtain ⟨text, rest, script, hscan⟩ := hops
    obtain ⟨rfl, -, -⟩ : (signs text).1 = ops ∧ _ ∧ _ := by simpa [Rule.scan] using hscan
    exact signs_rank text
  rcases ops with _ | ⟨op, ops⟩
  · exact factor_reads hin start (hc.tighter (by decide))
  · refine .emits (emitOperators_eq _) (Takes.operators _) ?_
    have hclear : (start.pushOperators (op :: ops)).Clear .access :=
      Regions.clear_pushOperators start (by simp) fun op' hop' => by rw [hrank op' hop']; decide
    refine ((factor_reads hin _ hclear).must _).bind ?_
    rintro _ operand _ rfl
    exact .emitLast (Takes.foldUnary hc hrank operand) rfl

section Chains

variable {rank rank' : Rank} {operand : Rule Unit} {operand' : Rule Tree}
  {operator? : List Char → Option (Operator × List Char)}

/-- A chain waits, operand and operator in turn, until it is folded. -/
theorem chain_reads (h : Reads rank one operand operand') (hr : rank.level < rank'.level)
    (hop : ∀ text op rest, operator? text = some (op, rest) → op.rank = rank') (missing : Mistake)
    {start : Regions Term} (hc : start.Clear rank') :
    Mirrors .clean start (chain operand operator? missing)
      (TreeGrammar.chain operand' operator? missing)
      fun _ found last => last = start.pushChain found.1 found.2 ∧ ∀ link ∈ found.2, link.1.rank = rank' := by
  unfold chain TreeGrammar.chain
  refine (h start (hc.tighter (Nat.le_of_lt hr))).bind ?_
  rintro _ first _ rfl
  have hlink : ∀ (found : List (Operator × Tree)) (middle : Regions Term),
      (middle = start.pushChain first found ∧ ∀ link ∈ found, link.1.rank = rank') →
      Mirrors .clean middle
        (do Rule.blanks; let op ← Rule.scan operator?; Rule.emit (.operator op); Rule.blanks;
            Rule.must missing operand)
        (do Rule.blanks; let op ← Rule.scan operator?; Rule.blanks;
            let right ← Rule.must missing operand'; return (op, right))
        fun _ link last => last = start.pushChain first (found ++ [link]) ∧
          ∀ link' ∈ found ++ [link], link'.1.rank = rank' := by
    rintro found _ ⟨rfl, hfound⟩
    refine .blanks (.token (Rule.silent_scan _) fun op hyields => ?_)
    have hrank : op.rank = rank' := by
      obtain ⟨text, rest, script, hscan⟩ := hyields
      unfold Rule.scan at hscan
      split at hscan
      · rename_i op' rest' hop'
        cases hscan
        exact hop text op _ hop'
      · cases hscan
    refine .emit (.operator _ op) (.blanks ?_)
    have hclear : ((start.pushChain first found).pushOperator op).Clear rank :=
      Regions.clear_pushOperator _ (by rwa [hrank])
    refine ((h _ hclear).must missing).reform ?_
    rintro _ right _ rfl
    refine ⟨_, rfl, (Regions.pushChain_snoc start first found op right).symm, ?_⟩
    simpa [hrank, or_imp, forall_and] using hfound
  refine (Mirrors.many (fun found last => last = start.pushChain first found ∧
    ∀ link ∈ found, link.1.rank = rank') hlink ⟨rfl, by simp⟩).reform ?_
  rintro _ rest last hrest
  exact ⟨_, rfl, hrest⟩

theorem leftChain_reads (h : Reads rank one operand operand') (hr : rank.level < rank'.level)
    (hop : ∀ text op rest, operator? text = some (op, rest) → op.rank = rank') (missing : Mistake) :
    Reads rank' one (leftChain operand operator? missing rank')
      (TreeGrammar.leftChain operand' operator? missing) := by
  intro start hc
  unfold leftChain TreeGrammar.leftChain
  refine (chain_reads h hr hop missing hc).bind ?_
  rintro _ ⟨first, rest⟩ _ ⟨rfl, hrest⟩
  exact .emitLast (Takes.foldLeft hc first hrest) rfl

end Chains

/-! Each scanner for operators finds operators of one rank. -/

section Operators

variable {text rest : List Char} {op : Operator}

theorem termOperator_rank (h : termOperator? text = some (op, rest)) : op.rank = .term := by
  unfold termOperator? at h
  split at h <;> cases h <;> rfl

theorem sumOperator_rank (h : sumOperator? text = some (op, rest)) : op.rank = .sum := by
  unfold sumOperator? at h
  split at h <;> cases h <;> rfl

theorem comparisonOperator_rank (h : comparisonOperator? text = some (op, rest)) : op.rank = .comparison := by
  unfold comparisonOperator? at h
  split at h <;> cases h <;> rfl

theorem equalityOperator_rank (h : equalityOperator? text = some (op, rest)) : op.rank = .equality := by
  unfold equalityOperator? at h
  split at h <;> cases h <;> rfl

theorem andOperator_rank (h : andOperator? text = some (op, rest)) : op.rank = .conjunction := by
  unfold andOperator? at h
  split at h <;> cases h
  rfl

theorem orOperator_rank (h : orOperator? text = some (op, rest)) : op.rank = .disjunction := by
  unfold orOperator? at h
  split at h <;> cases h
  rfl

theorem coalesceOperator_rank (h : coalesceOperator? text = some (op, rest)) : op.rank = .coalescing := by
  unfold coalesceOperator? at h
  split at h <;> cases h
  rfl

end Operators

theorem term_reads (hin : Reads .coalescing one inner inner') :
    Reads .term one (term inner) (TreeGrammar.term inner') :=
  leftChain_reads (unary_reads hin) (by decide)
    (fun _ _ _ => termOperator_rank) _

theorem sum_reads (hin : Reads .coalescing one inner inner') :
    Reads .sum one (sum inner) (TreeGrammar.sum inner') :=
  leftChain_reads (term_reads hin) (by decide)
    (fun _ _ _ => sumOperator_rank) _

theorem comparison_reads (hin : Reads .coalescing one inner inner') :
    Reads .comparison one (comparison inner) (TreeGrammar.comparison inner') :=
  leftChain_reads (sum_reads hin) (by decide)
    (fun _ _ _ => comparisonOperator_rank) _

theorem equality_reads (hin : Reads .coalescing one inner inner') :
    Reads .equality one (equality inner) (TreeGrammar.equality inner') :=
  leftChain_reads (comparison_reads hin) (by decide)
    (fun _ _ _ => equalityOperator_rank) _

theorem conjunction_reads (hin : Reads .coalescing one inner inner') :
    Reads .conjunction one (conjunction inner) (TreeGrammar.conjunction inner') :=
  leftChain_reads (equality_reads hin) (by decide)
    (fun _ _ _ => andOperator_rank) _

theorem disjunction_reads (hin : Reads .coalescing one inner inner') :
    Reads .disjunction one (disjunction inner) (TreeGrammar.disjunction inner') :=
  leftChain_reads (conjunction_reads hin) (by decide)
    (fun _ _ _ => orOperator_rank) _

theorem coalescing_reads (hin : Reads .coalescing one inner inner') :
    Reads .coalescing one (coalescing inner) (TreeGrammar.coalescing inner') := by
  intro start hc
  unfold coalescing TreeGrammar.coalescing
  refine (chain_reads (disjunction_reads hin) (by decide) (fun _ _ _ => coalesceOperator_rank) _
    hc).bind ?_
  rintro _ ⟨first, rest⟩ _ ⟨rfl, hrest⟩
  exact .emitLast (Takes.foldRight hc first hrest) rfl

/-- The branches of a choice share the region of its condition; the markers keep them apart.  This
is the one rule that may decline after it has emitted something. -/
theorem branches_reads (hin : Reads .coalescing one inner inner') {start : Regions Term}
    (hc : start.Clear .coalescing) :
    Mirrors .running start (branches inner) (TreeGrammar.branches inner')
      fun _ found last =>
        last = ((start.push found.1.term).pushOperator .choose).push found.2.term := by
  unfold branches TreeGrammar.branches
  refine .blanks ((hin start hc).running.bindRunning ?_)
  rintro _ whenTrue _ rfl
  refine .blanks (.silent (Rule.silent_char _) (.inl ⟨_, .nil _⟩) fun _ _ => ?_)
  refine .emitRunning (.operator _ .choose) (.blanks ?_)
  refine (hin _ (Regions.clear_pushOperator _ (by decide))).running.reform ?_
  rintro _ whenFalse _ rfl
  exact ⟨_, rfl, rfl⟩

theorem choice_reads (hin : Reads .coalescing one inner inner') :
    Reads .coalescing one (choice inner) (TreeGrammar.choice inner') := by
  intro start hc
  unfold choice TreeGrammar.choice
  refine (coalescing_reads hin start hc).bind ?_
  rintro _ condition _ rfl
  refine .silent (Rule.silent_optional Rule.silent_questionMark) (.inr (Rule.sure_optional _)) ?_
  rintro (_ | _) _
  · exact .pure rfl
  · refine .emit (.operator _ .choose) ?_
    refine ((branches_reads hin (Regions.clear_pushOperator _ (by decide))).must _).bind ?_
    rintro _ ⟨whenTrue, whenFalse⟩ _ rfl
    exact .emitLast (.foldChoice start condition.term whenTrue.term whenFalse.term) rfl

/-- **Every expression is read in step**, however deep others are inside it. -/
theorem expression_reads (depth : Nat) :
    Reads .coalescing one (expression depth) (TreeGrammar.expression depth) := by
  induction depth with
  | zero => exact fun _ _ => .fail _
  | succ depth ih => exact choice_reads ih

theorem template_reads {start : Regions Term} (hc : start.Clear .access) :
    Mirrors .never start template TreeGrammar.template
      fun _ segments last => last = start.pushAll (segments.flatMap one) :=
  many_reads (segment_reads (expression_reads depthLimit) none) hc

end LiveTemplate.Grammar
