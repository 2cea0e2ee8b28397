import LiveTemplate.Proofs.Grammar.Part
/-!
# Every rule that is tried

While a text is read, rules try other rules.  `Calls` lists every place in the grammar where one
rule is tried inside another, with all that stands before that place as a rule of its own: what has
been read by then, the alternatives that have been passed over, and the rounds of a repetition
that have been made.  `Tried` follows these places down from the template.  It says which rule is
tried on what is left of the text and which steps have been emitted until then — those of rules
that declined included, for nothing is taken back.

The law about it is that a rule is never tried in a state that it could spoil: no operator waits
that it might fold, and where it takes an operand there is one.  It goes along the places one by
one.
-/

set_option autoImplicit false

namespace LiveTemplate.Grammar

open Rule

/-! ## Places -/

namespace Rule

/-- Go on after a rule that declines.  Nothing is read, and what it emitted stays emitted. -/
def passOver (rule : Rule Unit) : Rule Unit := fun text =>
  match rule text with
  | .declined script => .done () text script
  | _ => .declined []

/-- Go on after rules that decline one after the other. -/
def passOverAll : List (Rule Unit) → Rule Unit
  | [] => pure ()
  | rule :: rest => do
    passOver rule
    passOverAll rest

/-- Some rounds of a repetition. -/
def times (rule : Rule Unit) : Nat → Rule Unit
  | 0 => pure ()
  | rounds + 1 => do
    times rule rounds
    rule

end Rule

/-- The alternatives of a part, in the order in which they are tried. -/
def Part.alternatives : Part → List Part
  | segment quote => [binding, rawText quote]
  | anyQuoted => [quoted '\x27' .singleQuote, quoted '\x22' .doubleQuote]
  | access => [field, index, call]
  | accessible => [group, resource, name, array, map]
  | factor => [word, dimension, accessChain, number, anyQuoted]
  | _ => []

/-- What is skipped before the alternatives of a part. -/
def Part.opening : Part → Rule Unit
  | access => blanks
  | _ => pure ()

/-- What separates the elements of a list. -/
def comma : Rule Unit := do
  blanks
  char ','
  blanks

/-- The places where a part is tried inside another one, each with what stands before it. -/
inductive Calls (depth : Nat) : Part → Rule Unit → Part → Nat → Prop
  /-- One of several alternatives, after those before it have declined. -/
  | alternative {outer inner : Part} {before after : List Part}
      (h : outer.alternatives = before ++ inner :: after) :
      Calls depth outer (do outer.opening; passOverAll (before.map fun part => part.rule depth))
        inner depth
  | templateSegment (rounds : Nat) :
      Calls depth .template (times ((Part.segment none).rule depth) rounds) (.segment none) depth
  | bindingContent :
      Calls depth .binding (do scan (literal? ['$', '\x7b']); emit .enter; blanks)
        .expression depth
  | quotedSegment (quote : Char) (unterminated : Mistake) (rounds : Nat) :
      Calls depth (.quoted quote unterminated)
        (do char quote; emit .enter; times ((Part.segment (some quote)).rule depth) rounds)
        (.segment (some quote)) depth
  | listFirst (missing : Mistake) : Calls depth (.list missing) (pure ()) .expression depth
  | listNext (missing : Mistake) (rounds : Nat) :
      Calls depth (.list missing)
        (do expression depth
            times (do comma; must missing (expression depth)) rounds
            comma)
        .expression depth
  | groupContent :
      Calls depth .group (do char '('; emit .enter; blanks) .expression depth
  | arrayElements :
      Calls depth .array (do char '['; emit .enter; blanks) (.list .array) depth
  | entryKey : Calls depth .entry (pure ()) .anyQuoted depth
  | entryValue :
      Calls depth .entry
        (do anyQuoted (expression depth); blanks; must .mapColon (char ':'); blanks)
        .expression depth
  | entriesFirst : Calls depth .entries (pure ()) .entry depth
  | entriesNext (rounds : Nat) :
      Calls depth .entries
        (do mapEntry (expression depth)
            times (do comma; must .mapKey (mapEntry (expression depth))) rounds
            comma)
        .entry depth
  | mapEntries :
      Calls depth .map (do char '\x7b'; emit (.operator .map); emit .enter; blanks) .entries depth
  | indexKey :
      Calls depth .index (do char '['; emit (.operator .index); emit .enter; blanks)
        .expression depth
  | callArguments :
      Calls depth .call (do char '('; emit (.operator .call); emit .enter; blanks)
        (.list .expression) depth
  | accessStart : Calls depth .accessChain (pure ()) .accessible depth
  | accessNext (rounds : Nat) :
      Calls depth .accessChain
        (do accessible (expression depth); times (access (expression depth)) rounds) .access depth
  | unaryOperand :
      Calls depth .unary
        (do let ops ← scan fun text => some (signs text); emitOperators ops) .factor depth
  | chainFirst (level : Level) : Calls depth (.chain level) (pure ()) level.operand depth
  | chainNext (level : Level) (rounds : Nat) :
      Calls depth (.chain level)
        (do level.operandRule (expression depth)
            times (do
              blanks
              let op ← scan level.operator?
              emit (.operator op)
              blanks
              must level.missing (level.operandRule (expression depth))) rounds
            blanks
            let op ← scan level.operator?
            emit (.operator op)
            blanks)
        level.operand depth
  | levelChain (level : Level) : Calls depth (.ranked level) (pure ()) (.chain level) depth
  | choiceCondition : Calls depth .choice (pure ()) (.ranked .coalescing) depth
  | choiceTrue :
      Calls depth .choice
        (do coalescing (expression depth); questionMark; emit (.operator .choose); blanks)
        .expression depth
  | choiceFalse :
      Calls depth .choice
        (do coalescing (expression depth); questionMark; emit (.operator .choose); blanks
            expression depth; blanks; char ':'; emit (.operator .choose); blanks)
        .expression depth
  | expressionChoice (depth' : Nat) (h : depth = depth' + 1) :
      Calls depth .expression (pure ()) .choice depth'

/-- In reading the text the part is tried on what is left of it, after a script has been emitted. -/
inductive Tried (text : List Char) : Part → Nat → List Char → Script → Prop
  | template : Tried text .template depthLimit text []
  | call {outer inner : Part} {depth depth' : Nat} {before : Rule Unit} {left rest : List Char}
      {script more : Script} (h : Tried text outer depth left script)
      (hcalls : Calls depth outer before inner depth')
      (hbefore : before left = .done () rest more) : Tried text inner depth' rest (script ++ more)

/-! ## Where a rule leads when it is done -/

variable {α β : Type} {start : Regions Term}

/-- If the rule is done, what it has emitted leads to a state as stated. -/
def Leads (start : Regions Term) (rule : Rule α) (goal : α → Regions Term → Prop) : Prop :=
  ∀ text rest a script, rule text = .done a rest script →
    ∃ last, Takes start script last ∧ goal a last

theorem Commits.leads {rule : Rule Unit} {fits : List Char → Regions Term → Prop}
    {goal : Unit → Regions Term → Prop} (h : Commits start rule fits)
    (hgoal : ∀ text last, fits text last → goal () last) : Leads start rule goal := by
  intro text rest _ script hdone
  have hrule := h text
  rw [hdone] at hrule
  obtain ⟨last, ht, hfits⟩ := hrule
  exact ⟨last, ht, hgoal text last hfits⟩

namespace Leads

variable {rule : Rule α} {goal : α → Regions Term → Prop}

theorem pure {a : α} (h : goal a start) : Leads start (Pure.pure a : Rule α) goal := by
  intro text rest a' script hdone
  cases hdone
  exact ⟨start, .nil start, h⟩

theorem bind {next : α → Rule β} {goal' : β → Regions Term → Prop} (h : Leads start rule goal)
    (k : ∀ a middle, goal a middle → Leads middle (next a) goal') :
    Leads start (rule >>= next) goal' := by
  intro text rest b script hdone
  change Rule.bind rule next text = _ at hdone
  unfold Rule.bind at hdone
  cases hrule : rule text with
  | done a left first =>
    rw [hrule] at hdone
    dsimp only at hdone
    obtain ⟨middle, ht, hgoal⟩ := h _ _ _ _ hrule
    cases hnext : next a left with
    | done b' rest' second =>
      rw [hnext] at hdone
      cases hdone
      obtain ⟨last, ht', hgoal'⟩ := k a middle hgoal _ _ _ _ hnext
      exact ⟨last, ht.append ht', hgoal'⟩
    | _ =>
      rw [hnext] at hdone
      cases hdone
  | _ =>
    rw [hrule] at hdone
    cases hdone

theorem mono {goal' : α → Regions Term → Prop} (h : Leads start rule goal)
    (hg : ∀ a last, goal a last → goal' a last) : Leads start rule goal' := by
  intro text rest a script hdone
  obtain ⟨last, ht, hgoal⟩ := h text rest a script hdone
  exact ⟨last, ht, hg a last hgoal⟩

theorem emit {step : Step Leaf} {middle : Regions Term} (ht : Takes start [step] middle) :
    Leads start (Rule.emit step) fun _ last => last = middle := by
  intro text rest _ script hdone
  cases hdone
  exact ⟨middle, ht, rfl⟩

/-- A rule that emits nothing leads nowhere. -/
theorem silent (h : rule.Silent) : Leads start rule fun a last => rule.Yields a ∧ last = start := by
  intro text rest a script hdone
  have hscript := h text
  rw [hdone] at hscript
  obtain rfl : script = [] := hscript
  exact ⟨start, .nil start, ⟨text, rest, [], hdone⟩, rfl⟩

theorem must (mistake : Mistake) (h : Leads start rule goal) :
    Leads start (Rule.must mistake rule) goal := by
  intro text rest a script hdone
  unfold Rule.must at hdone
  cases hrule : rule text with
  | done a' rest' script' =>
    rw [hrule] at hdone
    cases hdone
    exact h _ _ _ _ hrule
  | _ =>
    rw [hrule] at hdone
    cases hdone

/-- A rule that declines has not moved anything. -/
theorem passOver {rule : Rule Unit} {fits : List Char → Regions Term → Prop}
    (h : Commits start rule fits) : Leads start rule.passOver fun _ last => last = start := by
  intro text rest _ script hdone
  have hrule := h text
  unfold Rule.passOver at hdone
  cases hend : rule text with
  | declined script' =>
    rw [hend] at hdone hrule
    obtain rfl : script' = [] := hrule
    cases hdone
    exact ⟨start, .nil start, rfl⟩
  | _ =>
    rw [hend] at hdone
    cases hdone

/-- What one round preserves, all rounds preserve. -/
theorem times {rule : Rule Unit} {inv : Regions Term → Prop}
    (h : ∀ middle, inv middle → Leads middle rule fun _ last => inv last) (hinv : inv start)
    (rounds : Nat) : Leads start (Rule.times rule rounds) fun _ last => inv last := by
  induction rounds with
  | zero => exact .pure hinv
  | succ rounds ih => exact ih.bind fun _ middle hmiddle => h middle hmiddle

end Leads

/-! ## The states in which rules are tried -/

theorem Part.Ready.tighter {part part' : Part} (h : part.Ready start) (ht : part'.taken = 0)
    (hr : part'.rank.level ≤ part.rank.level) : part'.Ready start :=
  ⟨by simp [ht], h.operators.tighter hr⟩

/-- In a new region every rule may be tried that takes no operand. -/
theorem Part.ready_enter {part : Part} (ht : part.taken = 0) (regions : Regions Term) :
    part.Ready regions.enter :=
  ⟨by simp [ht], Regions.clear_enter _ _⟩

/-- Where operands have only been added, the same rules may be tried as before. -/
theorem Part.Ready.grown {part : Part} {last : Regions Term} {taken added : Nat}
    (h : part.Ready start) (hg : start.Grown last taken added []) (hn : taken ≤ added) :
    part.Ready last := by
  obtain ⟨old, new, kept, hold, hnew, hlold, hlnew⟩ := hg.operands
  constructor
  · have := h.operands
    rw [hold, List.length_append] at this
    rw [hnew, List.length_append]
    omega
  · intro op hop
    rw [hg.operators] at hop
    exact h.operators op hop

/-- The alternatives of a part may be tried wherever the part may be. -/
theorem Part.Ready.alternative {outer inner : Part} (h : outer.Ready start)
    (hm : inner ∈ outer.alternatives) : inner.Ready start := by
  have hall : ∀ part ∈ outer.alternatives,
      part.taken ≤ outer.taken ∧ part.rank.level ≤ outer.rank.level := by
    cases outer <;> simp [alternatives, taken, rank]
  obtain ⟨htaken, hrank⟩ := hall inner hm
  exact ⟨Nat.le_trans htaken h.operands, h.operators.tighter hrank⟩

theorem Leads.passOverAll {outer : Part} {parts : List Part} {depth : Nat}
    (h : outer.Ready start) (hm : ∀ part ∈ parts, part ∈ outer.alternatives) :
    Leads start (Rule.passOverAll (parts.map fun part => part.rule depth))
      fun _ last => last = start := by
  induction parts with
  | nil => exact .pure rfl
  | cons part rest ih =>
    refine (Leads.passOver (part.commits depth (h.alternative (hm part (by simp))))).bind ?_
    rintro _ _ rfl
    exact ih fun part' hpart => hm part' (by simp [hpart])

theorem Part.opening_silent (part : Part) : part.opening.Silent := by
  cases part with
  | access => exact silent_blanks
  | _ => exact fun _ => rfl

theorem comma_silent : comma.Silent :=
  silent_bind silent_blanks fun _ => silent_bind (silent_char ',') fun _ => silent_blanks

/-- Every rule but an unfolded chain leaves the state fit for what could be tried before it. -/
theorem Part.Ready.after {part other : Part} (h : other.Ready start) (hpart : part.Ready start)
    (hchain : ∀ level, part ≠ .chain level) (depth : Nat) :
    Leads start (part.rule depth) fun _ last => other.Ready last := by
  refine (part.commits depth hpart).leads ?_
  intro text last hg
  have hpending : part.pending depth text = [] := by
    cases part with
    | chain level => exact absurd rfl (hchain level)
    | _ => rfl
  have hcount : part.taken ≤ part.added depth text := by
    cases part <;> simp [taken, added]
  rw [hpending] at hg
  exact h.grown hg hcount

namespace Leads

section Tokens

variable {skip : Rule Unit} {next : Unit → Rule β} {goal : β → Regions Term → Prop}
  {goal' : Unit → Regions Term → Prop}

/-- A rule that reads a token and then goes on. -/
theorem token (h : skip.Silent) (k : Leads start (next ()) goal) :
    Leads start (skip >>= next) goal := by
  refine (silent h).bind ?_
  rintro _ _ ⟨-, rfl⟩
  exact k

theorem lastToken (h : skip.Silent) (hgoal : goal' () start) : Leads start skip goal' := by
  refine (silent h).mono ?_
  rintro _ _ ⟨-, rfl⟩
  exact hgoal

/-- A rule that emits a step and then goes on. -/
theorem step {emitted : Step Leaf} {middle : Regions Term} (ht : Takes start [emitted] middle)
    (k : Leads middle (next ()) goal) : Leads start (Rule.emit emitted >>= next) goal := by
  refine (emit ht).bind ?_
  rintro _ _ rfl
  exact k

/-- A token, and then a region that is new. -/
theorem opened (h : skip.Silent) (hgoal : goal' () start.enter) :
    Leads start (do skip; Rule.emit .enter; Rule.blanks) goal' :=
  .token h (.step (Takes.enter _) (.lastToken silent_blanks hgoal))

/-- A token and an operator, and then a region that is new. -/
theorem openedAfter (h : skip.Silent) {op : Operator}
    (hgoal : goal' () (start.pushOperator op).enter) :
    Leads start (do skip; Rule.emit (.operator op); Rule.emit .enter; Rule.blanks) goal' :=
  .token h (.step (Takes.operator _ op)
    (.step (Takes.enter _) (.lastToken silent_blanks hgoal)))

end Tokens

/-- Between two elements of a list a further one may be tried. -/
theorem elements {part : Part} (h : part.Ready start) (hchain : ∀ level, part ≠ .chain level)
    (depth : Nat) (missing : Mistake) (rounds : Nat) :
    Leads start (do
        part.rule depth
        Rule.times (do comma; Rule.must missing (part.rule depth)) rounds
        comma) fun _ last => part.Ready last := by
  refine (h.after h hchain depth).bind fun _ middle hmiddle => ?_
  refine (times ?_ hmiddle rounds).bind fun _ _ hready => ?_
  · intro state hstate
    exact .token comma_silent ((hstate.after hstate hchain depth).must missing)
  · exact .lastToken comma_silent hready

/-- After an operator of a level an operand of the level may be tried. -/
theorem operator (level : Level) {next : Rule β} {goal : β → Regions Term → Prop}
    (k : ∀ middle, level.operand.Ready middle → Leads middle next goal) :
    Leads start (do let op ← scan level.operator?; Rule.emit (.operator op); next) goal := by
  refine (silent (silent_scan _)).bind ?_
  rintro op _ ⟨⟨text, rest, script, hscan⟩, rfl⟩
  have hrank : op.rank = level.rank := by
    unfold scan at hscan
    split at hscan
    · rename_i op' rest' hop
      cases hscan
      exact level.operator_rank hop
    · cases hscan
  refine .step (Takes.operator _ op) (k _ ⟨?_, Regions.clear_pushOperator _ ?_⟩)
  · cases level <;> simp [Level.operand, Part.taken]
  · rw [hrank]
    exact level.operand_rank

/-- The marker of a choice is looser than all that an expression may fold. -/
theorem marker {next : Rule β} {goal : β → Regions Term → Prop}
    (k : ∀ middle, Part.expression.Ready middle → Leads middle next goal) :
    Leads start (do Rule.emit (.operator .choose); next) goal :=
  .step (Takes.operator _ .choose)
    (k _ ⟨by simp [Part.taken], Regions.clear_pushOperator _ (by decide)⟩)

end Leads

/-- What stands before a place leads to a state in which the part there may be tried. -/
theorem Calls.ready {depth depth' : Nat} {outer inner : Part} {before : Rule Unit}
    (h : Calls depth outer before inner depth') (hr : outer.Ready start) :
    Leads start before fun _ last => inner.Ready last := by
  have hlevel : ∀ (level level' : Level), level.operand ≠ .chain level' := by
    intro level level'
    cases level <;> simp [Level.operand]
  cases h with
  | @alternative _ _ passed after halternatives =>
    refine .token outer.opening_silent ((Leads.passOverAll hr ?_).mono ?_)
    · intro part hpart
      simp [halternatives, hpart]
    · rintro _ _ rfl
      exact hr.alternative (by simp [halternatives])
  | templateSegment rounds =>
    have hsegment : (Part.segment none).Ready start := hr.tighter rfl (Nat.le_refl _)
    refine Leads.times (fun middle hmiddle => ?_) hsegment rounds
    exact hmiddle.after hmiddle (by simp) depth
  | bindingContent => exact .opened (silent_scan _) (Part.ready_enter rfl _)
  | quotedSegment quote unterminated rounds =>
    refine .token (silent_char quote) (.step (Takes.enter _) ?_)
    refine Leads.times (fun middle hmiddle => ?_) (Part.ready_enter rfl _) rounds
    exact hmiddle.after hmiddle (by simp) depth
  | listFirst missing => exact .pure (hr.tighter rfl (Nat.le_refl _))
  | listNext missing rounds =>
    have hexpression : Part.expression.Ready start := hr.tighter rfl (Nat.le_refl _)
    exact Leads.elements hexpression (by simp) depth missing rounds
  | groupContent => exact .opened (silent_char _) (Part.ready_enter rfl _)
  | arrayElements => exact .opened (silent_char _) (Part.ready_enter rfl _)
  | entryKey => exact .pure (hr.tighter rfl (by decide))
  | entryValue =>
    have hexpression : Part.expression.Ready start := hr.tighter rfl (Nat.le_refl _)
    have hkey : Part.anyQuoted.Ready start := hr.tighter rfl (by decide)
    refine (hexpression.after hkey (by simp) depth).bind fun _ middle hmiddle => ?_
    exact .token silent_blanks (.token (silent_must (silent_char ':') _)
      (.lastToken silent_blanks hmiddle))
  | entriesFirst => exact .pure (hr.tighter rfl (Nat.le_refl _))
  | entriesNext rounds =>
    have hentry : Part.entry.Ready start := hr.tighter rfl (Nat.le_refl _)
    exact Leads.elements hentry (by simp) depth .mapKey rounds
  | mapEntries => exact .openedAfter (silent_char _) (Part.ready_enter rfl _)
  | indexKey => exact .openedAfter (silent_char _) (Part.ready_enter rfl _)
  | callArguments => exact .openedAfter (silent_char _) (Part.ready_enter rfl _)
  | accessStart => exact .pure (hr.tighter rfl (Nat.le_refl _))
  | accessNext rounds =>
    have haccessible : Part.accessible.Ready start := hr.tighter rfl (Nat.le_refl _)
    -- the container is an operand that each access may take
    have hcontainer : Leads start (accessible (expression depth))
        fun _ last => Part.access.Ready last := by
      refine (Part.accessible.commits depth haccessible).leads ?_
      intro text last hg
      obtain ⟨old, new, kept, -, hnew, -, hlnew⟩ := hg.operands
      refine ⟨?_, (haccessible.grown hg (by simp [Part.taken])).operators⟩
      rw [hnew, List.length_append, hlnew]
      simp [Part.taken, Part.added]
    refine hcontainer.bind fun _ _ hready => ?_
    refine Leads.times (fun middle hmiddle => ?_) hready rounds
    exact hmiddle.after hmiddle (by simp) depth
  | unaryOperand =>
    refine (Leads.silent (silent_scan _)).bind ?_
    rintro ops _ ⟨⟨text, rest, script, hscan⟩, rfl⟩
    obtain ⟨rfl, -, -⟩ : (signs text).1 = ops ∧ _ ∧ _ := by simpa [scan] using hscan
    have hsigns : ∀ op ∈ (signs text).1, Rank.level .access < op.rank.level := by
      intro op hop
      rw [signs_rank text op hop]
      decide
    intro text' rest' _ script' hdone
    rw [emitOperators_eq] at hdone
    cases hdone
    refine ⟨_, Takes.operators _, by simp [Part.taken], ?_⟩
    by_cases hempty : (signs text).1 = []
    · rw [hempty]
      exact hr.operators.tighter (by decide)
    · exact Regions.clear_pushOperators _ hempty hsigns
  | chainFirst level =>
    refine .pure (hr.tighter ?_ (Nat.le_of_lt level.operand_rank))
    cases level <;> rfl
  | chainNext level rounds =>
    have hoperand : level.operand.Ready start := by
      refine hr.tighter ?_ (Nat.le_of_lt level.operand_rank)
      cases level <;> rfl
    rw [← level.operand_rule]
    refine (hoperand.after hoperand (hlevel level) depth).bind fun _ _ hfirst => ?_
    refine (Leads.times (fun _ _ => ?_) hfirst rounds).bind fun _ _ _ => ?_
    · refine .token silent_blanks (.operator level fun middle hmiddle => ?_)
      exact .token silent_blanks ((hmiddle.after hmiddle (hlevel level) depth).must level.missing)
    · refine .token silent_blanks (.operator level fun middle hmiddle => ?_)
      exact .lastToken silent_blanks hmiddle
  | levelChain level => exact .pure (hr.tighter rfl (Nat.le_refl _))
  | choiceCondition => exact .pure (hr.tighter rfl (Nat.le_refl _))
  | choiceTrue =>
    have hcondition : (Part.ranked .coalescing).Ready start := hr.tighter rfl (Nat.le_refl _)
    refine (hcondition.after hcondition (by simp) depth).bind fun _ _ _ => ?_
    refine .token silent_questionMark (.marker fun middle hmiddle => ?_)
    exact .lastToken silent_blanks hmiddle
  | choiceFalse =>
    have hcondition : (Part.ranked .coalescing).Ready start := hr.tighter rfl (Nat.le_refl _)
    refine (hcondition.after hcondition (by simp) depth).bind fun _ _ _ => ?_
    refine .token silent_questionMark (.marker fun middle hmiddle => .token silent_blanks ?_)
    refine (hmiddle.after hmiddle (by simp) depth).bind fun _ _ _ => .token silent_blanks ?_
    refine .token (silent_char ':') (.marker fun last hlast => ?_)
    exact .lastToken silent_blanks hlast
  | expressionChoice _ _ => exact .pure (hr.tighter rfl (Nat.le_refl _))

/-- **No rule is ever tried in a state that it could spoil.** -/
theorem Tried.ready {text left : List Char} {part : Part} {depth : Nat} {script : Script}
    (h : Tried text part depth left script) :
    ∃ start : Regions Term, Takes Regions.empty script start ∧ part.Ready start := by
  induction h with
  | template =>
    exact ⟨Regions.empty, .nil _, by simp [Part.taken], Regions.clear_empty _⟩
  | call _ hcalls hbefore ih =>
    obtain ⟨start, ht, hr⟩ := ih
    obtain ⟨last, ht', hr'⟩ := hcalls.ready hr _ _ _ _ hbefore
    exact ⟨last, ht.append ht', hr'⟩

end LiveTemplate.Grammar
