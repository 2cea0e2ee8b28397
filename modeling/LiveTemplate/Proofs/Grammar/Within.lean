import LiveTemplate.Proofs.Grammar.Part
import LiveTemplate.Proofs.Syntax.Taken
/-!
# Where a rule points to

A rule that is done leaves an end of the text that it was given, and a rule that fails points to such
an end.  So whatever goes wrong inside a rule is reported at a place of its text, never before it and
never between two texts.  And the mistake that is reported is one of the rule, of what it expected and
did not find; that text has been left unread is a mistake that no rule makes.

`Within` says this of a rule.  The ways of combining rules keep it, and so it is carried from the
scanners to the rule for expressions, whatever depth is allowed.

A template is within its text in a stricter sense: it never declines, it never leaves anything, and it
fails only behind the mark with which an expression starts.
-/

set_option autoImplicit false

namespace LiveTemplate

/-- The mistake is one of a rule that expected something.  The others are about text that no rule has
read. -/
def Mistake.IsExpectation (mistake : Mistake) : Prop :=
  mistake ≠ .unexpected ∧ mistake ≠ .unexpectedBeforeEnd

instance : DecidablePred Mistake.IsExpectation := fun _ => instDecidableAnd

namespace Grammar

open Text (isBlank skipBlank)
open Rule

variable {α β : Type}

/-- What the rule leaves is an end of its text, and what it points to when it fails is one too. -/
def Within (rule : Rule α) : Prop :=
  ∀ text, match rule text with
    | .done _ rest _ => rest <:+ text
    | .declined _ => True
    | .failed mistake rest _ => rest <:+ text ∧ mistake.IsExpectation

namespace Within

variable {rule first second : Rule α} {next : α → Rule β} {mistake : Mistake}

/-! ## Combining rules -/

theorem pure (a : α) : Within (Pure.pure a : Rule α) := fun text => List.suffix_refl text

theorem decline : Within (Rule.decline : Rule α) := fun _ => trivial

theorem fail (h : mistake.IsExpectation) : Within (Rule.fail mistake : Rule α) :=
  fun text => ⟨List.suffix_refl text, h⟩

theorem emit (step : Step Leaf) : Within (Rule.emit step) := fun text => List.suffix_refl text

theorem bind (h : Within first) (k : ∀ a, Within (next a)) : Within (first >>= next) := by
  intro text
  have hfirst := h text
  show match Rule.bind first next text with
    | .done _ rest _ => rest <:+ text
    | .declined _ => True
    | .failed mistake rest _ => rest <:+ text ∧ mistake.IsExpectation
  unfold Rule.bind
  cases hend : first text with
  | done a middle script =>
    rw [hend] at hfirst
    have hnext := k a middle
    dsimp only
    cases hlast : next a middle with
    | done b rest more =>
      rw [hlast] at hnext
      exact hnext.trans hfirst
    | declined more => trivial
    | failed mistake rest more =>
      rw [hlast] at hnext
      exact ⟨hnext.1.trans hfirst, hnext.2⟩
  | declined script => trivial
  | failed mistake rest script =>
    rw [hend] at hfirst
    exact hfirst

theorem scan {scanner : List Char → Option (α × List Char)}
    (h : ∀ text a rest, scanner text = some (a, rest) → rest <:+ text) : Within (Rule.scan scanner) := by
  intro text
  unfold Rule.scan
  cases hscan : scanner text with
  | none => trivial
  | some found => exact h text found.1 found.2 hscan

theorem must (h : Within rule) (hmistake : mistake.IsExpectation) :
    Within (Rule.must mistake rule) := by
  intro text
  have hrule := h text
  unfold Rule.must
  cases hend : rule text with
  | declined script => exact ⟨List.suffix_refl text, hmistake⟩
  | _ =>
    rw [hend] at hrule
    exact hrule

theorem optional (h : Within rule) : Within (Rule.optional rule) := by
  intro text
  have hrule := h text
  unfold Rule.optional
  cases hend : rule text with
  | declined script => exact List.suffix_refl text
  | _ =>
    rw [hend] at hrule
    exact hrule

theorem orElse (h : Within first) (k : Within second) : Within (Rule.orElse first second) := by
  intro text
  have hfirst := h text
  have hsecond := k text
  unfold Rule.orElse
  cases hend : first text with
  | declined script =>
    dsimp only
    cases hlast : second text with
    | declined more => trivial
    | _ =>
      rw [hlast] at hsecond
      exact hsecond
  | _ =>
    rw [hend] at hfirst
    exact hfirst

theorem many {rule : Rule Unit} (h : Within rule) : Within (Rule.many rule) := by
  have hwithin : ∀ bound : List Char, Within (Rule.repeatWithin rule bound) := by
    intro bound
    induction bound with
    | nil => exact pure ()
    | cons _ bound ih =>
      intro text
      have hrule := h text
      unfold Rule.repeatWithin
      cases hend : rule text with
      | done _ middle script =>
        rw [hend] at hrule
        have hmore := ih middle
        dsimp only
        cases hlast : Rule.repeatWithin rule bound middle with
        | done _ rest more =>
          rw [hlast] at hmore
          exact hmore.trans hrule
        | declined more => trivial
        | failed mistake rest more =>
          rw [hlast] at hmore
          exact ⟨hmore.1.trans hrule, hmore.2⟩
      | declined script => exact List.suffix_refl text
      | failed mistake rest script =>
        rw [hend] at hrule
        exact hrule
  exact fun text => hwithin text text

/-! ## Tokens -/

theorem literal (word : List Char) : Within (Rule.scan (literal? word)) :=
  scan fun _ _ _ h => ⟨word, (literal_some h).symm⟩

theorem char (c : Char) : Within (Rule.char c) := literal [c]

theorem blanks : Within Rule.blanks := fun _ => List.dropWhile_suffix isBlank

theorem identifier : Within (Rule.scan identifier?) :=
  scan fun _ letters _ h => ⟨letters, (identifier_some h).2.symm⟩

theorem wordEnd : Within (Rule.scan wordEnd?) :=
  scan fun _ _ _ h => wordEnd_some h ▸ List.suffix_refl _

theorem keyword : Within (Rule.scan keyword?) := scan fun _ _ _ h => by
  obtain ⟨used, -, rfl⟩ := keyword_some h
  exact ⟨used, rfl⟩

theorem unit : Within (Rule.scan unit?) := scan fun _ _ _ h => by
  obtain ⟨letters, -, rfl⟩ := unit_some h
  exact ⟨letters, rfl⟩

theorem signs : Within (Rule.scan fun text => some (Grammar.signs text)) := scan fun _ _ _ h => by
  obtain ⟨-, hsplit⟩ := signs_taken (Option.some.inj h)
  exact ⟨_, hsplit.symm⟩

theorem literalText (quote : Option Char) : Within (Rule.scan (literalText? quote)) :=
  scan fun text raw rest h => by
    unfold literalText? at h
    split at h
    · cases h
    · exact ⟨raw, (literalText_taken (Option.some.inj h)).1.symm⟩

theorem numeral : Within Rule.numeral := by
  intro text
  cases hend : Rule.numeral text with
  | done digits rest script =>
    obtain ⟨-, rfl⟩ := completes_numeral ⟨script, hend⟩
    exact ⟨digits, rfl⟩
  | declined script => trivial
  | failed mistake rest script =>
    -- a numeral fails for its leading zero, where it starts
    unfold Rule.numeral at hend
    split at hend
    · split at hend
      · cases hend
        exact ⟨List.suffix_refl _, by decide⟩
      · cases hend
    · split at hend <;> cases hend
    · split at hend <;> cases hend
    · cases hend

theorem operator (level : Level) : Within (Rule.scan level.operator?) := scan fun text op rest h => by
  cases level <;>
    simp only [Level.operator?, termOperator?, sumOperator?, comparisonOperator?, equalityOperator?,
      andOperator?, orOperator?, coalesceOperator?] at h <;>
    split at h <;> cases h <;> first | exact ⟨[_], rfl⟩ | exact ⟨[_, _], rfl⟩

end Within

/-! ## Rule by rule -/

/-- What follows the mark of an expression. -/
def bindingContent (inner : Rule Unit) : Rule Unit := do
  emit .enter
  blanks
  match ← Rule.optional inner with
  | some () => pure ()
  | none => emit (.push (.text ""))
  blanks
  must .bindingEnd (char '\x7d')
  emit (.leave .single)

theorem binding_eq (inner : Rule Unit) :
    binding inner = Rule.bind (Rule.scan (literal? ['$', '\x7b'])) fun _ => bindingContent inner := rfl

section

variable {inner : Rule Unit} (h : Within inner)

include h

theorem expressionList_within {missing : Mistake} (hmissing : missing.IsExpectation) :
    Within (expressionList inner missing) := by
  refine h.optional.bind fun found => ?_
  cases found with
  | none => exact .pure ()
  | some _ =>
    refine Within.many ?_
    exact .bind .blanks fun _ => .bind (.char ',') fun _ => .bind .blanks fun _ => h.must hmissing

theorem bindingContent_within : Within (bindingContent inner) := by
  have hend : Within (do blanks; must .bindingEnd (char '\x7d'); emit (.leave .single)) :=
    .bind .blanks fun _ => .bind (.must (.char _) (by decide)) fun _ => .emit _
  refine .bind (.emit _) fun _ => .bind .blanks fun _ => h.optional.bind fun found => ?_
  cases found with
  | none => exact .bind (.emit _) fun _ => hend
  | some _ => exact hend

theorem binding_within : Within (binding inner) :=
  .bind (.literal _) fun _ => bindingContent_within h

omit h in
theorem rawText_within (quote : Option Char) : Within (rawText quote) :=
  .bind (.literalText quote) fun _ => .emit _

theorem quoted_within (quote : Char) {unterminated : Mistake} (hmistake : unterminated.IsExpectation) :
    Within (quoted inner quote unterminated) := by
  refine .bind (.char quote) fun _ => .bind (.emit _) fun _ => ?_
  refine .bind (Within.many ((binding_within h).orElse (rawText_within _))) fun _ => ?_
  exact .bind (.must (.char quote) hmistake) fun _ => .emit _

theorem anyQuoted_within : Within (anyQuoted inner) :=
  .orElse (quoted_within h _ (by decide)) (quoted_within h _ (by decide))

theorem group_within : Within (group inner) := by
  refine .bind (.char _) fun _ => .bind (.emit _) fun _ => .bind .blanks fun _ => ?_
  refine .bind (h.must (by decide)) fun _ => .bind .blanks fun _ => ?_
  exact .bind (.must (.char _) (by decide)) fun _ => .emit _

theorem array_within : Within (array inner) := by
  refine .bind (.char _) fun _ => .bind (.emit _) fun _ => .bind .blanks fun _ => ?_
  refine .bind (expressionList_within h (by decide)) fun _ => .bind .blanks fun _ => ?_
  exact .bind (.must (.char _) (by decide)) fun _ => .emit _

theorem mapEntry_within : Within (mapEntry inner) := by
  refine .bind (anyQuoted_within h) fun _ => .bind .blanks fun _ => ?_
  exact .bind (.must (.char _) (by decide)) fun _ => .bind .blanks fun _ => h.must (by decide)

theorem map_within : Within (map inner) := by
  have hentries : Within (mapEntries inner) := expressionList_within (mapEntry_within h) (by decide)
  refine .bind (.char _) fun _ => .bind (.emit _) fun _ => .bind (.emit _) fun _ => ?_
  refine .bind .blanks fun _ => .bind hentries fun _ => .bind .blanks fun _ => ?_
  exact .bind (.must (.char _) (by decide)) fun _ => .bind (.emit _) fun _ => .emit _

omit h in
theorem word_within : Within word :=
  .bind .keyword fun _ => .bind .wordEnd fun _ => .emit _

omit h in
theorem dimension_within : Within dimension :=
  .bind .numeral fun _ => .bind .unit fun _ => .bind .wordEnd fun _ => .emit _

omit h in
theorem number_within : Within number := .bind .numeral fun _ => .emit _

omit h in
theorem name_within : Within name := by
  refine .bind .identifier fun letters => ?_
  split
  · exact .decline
  · exact .emit _

omit h in
theorem resource_within : Within resource :=
  .bind (.char _) fun _ => .bind .identifier fun _ => .emit _

theorem access_within : Within (access inner) := by
  have hfield : Within fieldAccess :=
    .bind (.char _) fun _ => .bind .blanks fun _ => .bind .identifier fun _ =>
      .bind (.emit _) fun _ => .bind (.emit _) fun _ => .emit _
  have hindex : Within (indexAccess inner) := by
    refine .bind (.char _) fun _ => .bind (.emit _) fun _ => .bind (.emit _) fun _ => ?_
    refine .bind .blanks fun _ => .bind (h.must (by decide)) fun _ => .bind .blanks fun _ => ?_
    exact .bind (.must (.char _) (by decide)) fun _ => .bind (.emit _) fun _ => .emit _
  have hcall : Within (call inner) := by
    refine .bind (.char _) fun _ => .bind (.emit _) fun _ => .bind (.emit _) fun _ => ?_
    refine .bind .blanks fun _ => .bind (expressionList_within h (by decide)) fun _ => ?_
    refine .bind .blanks fun _ => .bind (.must (.char _) (by decide)) fun _ => ?_
    exact .bind (.emit _) fun _ => .emit _
  exact .bind .blanks fun _ => hfield.orElse (hindex.orElse hcall)

theorem factor_within : Within (factor inner) := by
  have haccessible : Within (accessible inner) :=
    (group_within h).orElse <| resource_within.orElse <| name_within.orElse <|
      (array_within h).orElse (map_within h)
  have hchain : Within (accessChain inner) := .bind haccessible fun _ => (access_within h).many
  exact word_within.orElse <| dimension_within.orElse <| hchain.orElse <|
    number_within.orElse (anyQuoted_within h)

omit h in
theorem emitOperators_within (ops : List Operator) : Within (emitOperators ops) := by
  induction ops with
  | nil => exact .pure ()
  | cons op ops ih => exact .bind (.emit _) fun _ => ih

theorem unary_within : Within (unary inner) := by
  refine .bind .signs fun ops => ?_
  split
  · exact factor_within h
  · refine .bind (emitOperators_within ops) fun _ => ?_
    exact .bind ((factor_within h).must (by decide)) fun _ => .emit _

omit h in
theorem Level.missing_isExpectation (level : Level) : level.missing.IsExpectation := by
  cases level <;> decide

omit h in
theorem chain_within {operand : Rule Unit} (hoperand : Within operand) (level : Level) :
    Within (chain operand level.operator? level.missing) := by
  refine hoperand.bind fun _ => Within.many ?_
  refine .bind .blanks fun _ => .bind (.operator level) fun op => .bind (.emit _) fun _ => ?_
  exact .bind .blanks fun _ => hoperand.must level.missing_isExpectation

omit h in
theorem leftChain_within {operand : Rule Unit} (hoperand : Within operand) (level : Level) :
    Within (leftChain operand level.operator? level.missing level.rank) :=
  .bind (chain_within hoperand level) fun _ => .emit _

theorem coalescing_within : Within (coalescing inner) := by
  have hterm : Within (term inner) := leftChain_within (unary_within h) .term
  have hsum : Within (sum inner) := leftChain_within hterm .sum
  have hcomparison : Within (comparison inner) := leftChain_within hsum .comparison
  have hequality : Within (equality inner) := leftChain_within hcomparison .equality
  have hconjunction : Within (conjunction inner) := leftChain_within hequality .conjunction
  have hdisjunction : Within (disjunction inner) := leftChain_within hconjunction .disjunction
  exact .bind (chain_within hdisjunction .coalescing) fun _ => .emit _

theorem choice_within : Within (choice inner) := by
  have hmark : Within questionMark := .bind .blanks fun _ => .char _
  have hbranches : Within (branches inner) :=
    .bind .blanks fun _ => h.bind fun _ => .bind .blanks fun _ => .bind (.char _) fun _ =>
      .bind (.emit _) fun _ => .bind .blanks fun _ => h
  refine (coalescing_within h).bind fun _ => hmark.optional.bind fun found => ?_
  cases found with
  | none => exact .pure ()
  | some _ =>
    exact .bind (.emit _) fun _ => .bind (hbranches.must (by decide)) fun _ => .emit _

end

/-- **An expression fails within its text**, whatever depth is allowed. -/
theorem expression_within (depth : Nat) : Within (expression depth) := by
  induction depth with
  | zero => exact .fail (by decide)
  | succ depth ih => exact choice_within ih

/-! ## Templates -/

namespace Rule

theorem sure_emit (step : Step Leaf) : (emit step).Sure := fun _ _ h => by cases h

theorem sure_bind {rule : Rule α} {next : α → Rule β} (h : rule.Sure) (k : ∀ a, (next a).Sure) :
    (rule >>= next).Sure := by
  intro text script hdeclined
  change Rule.bind rule next text = _ at hdeclined
  unfold Rule.bind at hdeclined
  cases hend : rule text with
  | done a middle first =>
    rw [hend] at hdeclined
    dsimp only at hdeclined
    cases hlast : next a middle with
    | declined more => exact k a middle more hlast
    | _ =>
      rw [hlast] at hdeclined
      cases hdeclined
  | declined first => exact h text first hend
  | failed mistake rest first =>
    rw [hend] at hdeclined
    cases hdeclined

end Rule

/-- Something was expected behind the mark of an expression, and was not found where the rest of the
text starts. -/
structure FailsBehindMark (text : List Char) (mistake : Mistake) (rest : List Char) : Prop where
  expectation : mistake.IsExpectation
  behind : ∃ before, text = before ++ rest ∧ ['$', '\x7b'] <:+: before

variable {text rest : List Char} {mistake : Mistake}

theorem FailsBehindMark.after (h : FailsBehindMark text mistake rest) (used : List Char) :
    FailsBehindMark (used ++ text) mistake rest := by
  obtain ⟨hmistake, before, rfl, hmark⟩ := h
  refine ⟨hmistake, used ++ before, (List.append_assoc ..).symm, ?_⟩
  exact hmark.trans (List.suffix_append used before).isInfix

/-- What follows the mark of an expression is read, or is a mistake. -/
theorem bindingContent_sure (inner : Rule Unit) : (bindingContent inner).Sure := by
  have hend : Rule.Sure (do blanks; must .bindingEnd (char '\x7d'); emit (.leave .single)) :=
    sure_bind sure_blanks fun _ => sure_bind (sure_must _ _) fun _ => sure_emit _
  refine sure_bind (sure_emit _) fun _ => sure_bind sure_blanks fun _ => ?_
  refine sure_bind (sure_optional inner) fun found => ?_
  cases found with
  | none => exact sure_bind (sure_emit _) fun _ => hend
  | some _ => exact hend

/-- How a binding ends: it declines where there is no mark, and otherwise it takes the mark. -/
theorem binding_ends {inner : Rule Unit} (h : Within inner) (text : List Char) :
    match binding inner text with
    | .done _ rest _ => ∃ used, used ≠ [] ∧ text = used ++ rest
    | .declined _ => literal? ['$', '\x7b'] text = none
    | .failed mistake rest _ => FailsBehindMark text mistake rest := by
  rw [binding_eq]
  unfold Rule.bind Rule.scan
  cases hmark : literal? ['$', '\x7b'] text with
  | none => exact rfl
  | some found =>
    obtain ⟨_, tail⟩ := found
    obtain rfl : text = ['$', '\x7b'] ++ tail := literal_some hmark
    have hcontent := bindingContent_within h tail
    have hsure := bindingContent_sure inner tail
    dsimp only
    cases hend : bindingContent inner tail with
    | done _ rest script =>
      rw [hend] at hcontent
      obtain ⟨used, rfl⟩ := hcontent
      exact ⟨['$', '\x7b'] ++ used, by simp, by simp⟩
    | declined script => exact absurd hend (hsure script)
    | failed mistake rest script =>
      rw [hend] at hcontent
      obtain ⟨⟨used, rfl⟩, hmistake⟩ := hcontent
      exact ⟨hmistake, ['$', '\x7b'] ++ used, by simp, ⟨[], used, rfl⟩⟩

/-- Where there is no mark, literal text is read, unless there is no text at all. -/
theorem rawText_ends (hnone : literal? ['$', '\x7b'] text = none) (hne : text ≠ []) :
    ∃ raw rest script, rawText none text = .done () rest script ∧ raw ≠ [] ∧ text = raw ++ rest := by
  cases hraw : literalText none text with
  | mk raw rest =>
    obtain ⟨hsplit, -⟩ := literalText_taken hraw
    have hraw_ne : raw ≠ [] := by
      rintro rfl
      unfold literalText at hraw
      split at hraw
      · cases hnone
      · split at hraw
        · next hquote => cases hquote
        · cases hraw
      · exact hne rfl
    refine ⟨raw, rest, [.push (.text (String.ofList raw))], ?_, hraw_ne, hsplit⟩
    have hscan : literalText? none text = some (raw, rest) := by
      unfold literalText?
      rw [hraw]
      split
      · next heq => exact absurd (congrArg Prod.fst heq) hraw_ne
      · rfl
    show Rule.bind (Rule.scan _) _ text = _
    simp only [Rule.bind, Rule.scan, hscan]
    rfl

/-- How a segment of a template ends: it takes something, or it fails behind a mark, as long as there
is something. -/
theorem segment_ends {inner : Rule Unit} (h : Within inner) (hne : text ≠ []) :
    match orElse (binding inner) (rawText none) text with
    | .done _ rest _ => ∃ used, used ≠ [] ∧ text = used ++ rest
    | .declined _ => False
    | .failed mistake rest _ => FailsBehindMark text mistake rest := by
  have hbinding := binding_ends h text
  unfold Rule.orElse
  cases hend : binding inner text with
  | declined script =>
    rw [hend] at hbinding
    obtain ⟨raw, rest, more, hraw, hused⟩ := rawText_ends hbinding hne
    dsimp only
    rw [hraw]
    exact ⟨raw, hused⟩
  | _ =>
    rw [hend] at hbinding
    exact hbinding

/-- Each round takes something; so as many rounds as there are characters left read them all, unless one
of them fails. -/
theorem rounds_end (bound left : List Char) (hle : left.length ≤ bound.length) :
    match Rule.repeatWithin (orElse (binding (expression depthLimit)) (rawText none)) bound left with
    | .done _ rest _ => rest = []
    | .declined _ => False
    | .failed mistake rest _ => FailsBehindMark left mistake rest := by
  induction bound generalizing left with
  | nil => exact List.eq_nil_of_length_eq_zero (Nat.le_zero.mp hle)
  | cons _ bound ih =>
    unfold Rule.repeatWithin
    by_cases hne : left = []
    · subst hne
      exact rfl
    · have hsegment := segment_ends (expression_within depthLimit) hne
      cases hend : orElse (binding (expression depthLimit)) (rawText none) left with
      | done _ middle script =>
        rw [hend] at hsegment
        obtain ⟨used, hused, rfl⟩ := hsegment
        have hshorter : middle.length ≤ bound.length := by
          have hpos := List.length_pos_iff.mpr hused
          rw [List.length_append, List.length_cons] at hle
          omega
        have hrest := ih middle hshorter
        dsimp only
        cases hlast : Rule.repeatWithin (orElse (binding (expression depthLimit)) (rawText none))
            bound middle with
        | failed mistake rest more =>
          rw [hlast] at hrest
          exact hrest.after used
        | _ =>
          rw [hlast] at hrest
          exact hrest
      | declined script =>
        rw [hend] at hsegment
        exact hsegment.elim
      | failed mistake rest script =>
        rw [hend] at hsegment
        exact hsegment

/-- **A template is read to its end, or reading fails behind a mark.**  It never declines, and nothing
is left unread. -/
theorem template_ends (text : List Char) :
    match template text with
    | .done _ rest _ => rest = []
    | .declined _ => False
    | .failed mistake rest _ => FailsBehindMark text mistake rest :=
  rounds_end text text (Nat.le_refl _)

end Grammar

end LiveTemplate
