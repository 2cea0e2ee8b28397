import LiveTemplate.Proofs.Syntax.Sound
/-!
# The limit of the nesting

A reader that is allowed fewer expressions inside one another does what it does without the limit, or
it fails because the nesting is too deep.  It never takes another way on account of the limit, not even
where it only tries whether there is an expression: a failure is no declining.  `Curtails` says so of
two rules, and it is carried from the rule for inner expressions to all that is made of it.

Together with the two directions of reading this says which mistake a template is rejected for that is
a spelling of the grammar: only for this one, and exactly if its nesting exceeds the limit.  What counts
are the expressions that are tried.  An empty list, an empty list of arguments and an empty binding
hold no expression, but one is tried in them.
-/

set_option autoImplicit false

namespace LiveTemplate

namespace Grammar

open Rule

variable {α β : Type}

/-- The first rule does what the second one does, or fails because the nesting is too deep. -/
def Curtails (rule rule' : Rule α) : Prop :=
  ∀ text, rule text = rule' text ∨ ∃ rest script, rule text = .failed .tooDeep rest script

namespace Curtails

variable {rule rule' first first' second second' : Rule α} {next next' : α → Rule β}

theorem refl (rule : Rule α) : Curtails rule rule := fun _ => .inl rfl

theorem bind (h : Curtails first first') (k : ∀ a, Curtails (next a) (next' a)) :
    Curtails (first >>= next) (first' >>= next') := by
  intro text
  show Rule.bind first next text = Rule.bind first' next' text ∨
    ∃ rest script, Rule.bind first next text = _
  unfold Rule.bind
  obtain heq | ⟨rest, script, hdeep⟩ := h text
  · rw [heq]
    cases first' text with
    | done a middle script =>
      obtain heq | ⟨rest, more, hdeep⟩ := k a middle
      · exact .inl (congrArg (Outcome.after script) heq)
      · exact .inr ⟨rest, script ++ more, congrArg (Outcome.after script) hdeep⟩
    | declined script => exact .inl rfl
    | failed mistake rest script => exact .inl rfl
  · rw [hdeep]
    exact .inr ⟨rest, script, rfl⟩

/-- What follows has nothing to do with the limit. -/
theorem before (h : Curtails first first') (next : α → Rule β) :
    Curtails (first >>= next) (first' >>= next) := h.bind fun a => refl (next a)

/-- What goes before has nothing to do with the limit. -/
theorem after (first : Rule α) (k : ∀ a, Curtails (next a) (next' a)) :
    Curtails (first >>= next) (first >>= next') := (refl first).bind k

theorem must (h : Curtails rule rule') (mistake : Mistake) :
    Curtails (Rule.must mistake rule) (Rule.must mistake rule') := by
  intro text
  unfold Rule.must
  obtain heq | ⟨rest, script, hdeep⟩ := h text
  · exact .inl (by rw [heq])
  · exact .inr ⟨rest, script, by rw [hdeep]⟩

theorem optional (h : Curtails rule rule') : Curtails (Rule.optional rule) (Rule.optional rule') := by
  intro text
  unfold Rule.optional
  obtain heq | ⟨rest, script, hdeep⟩ := h text
  · exact .inl (by rw [heq])
  · exact .inr ⟨rest, script, by rw [hdeep]⟩

theorem orElse (h : Curtails first first') (k : Curtails second second') :
    Curtails (Rule.orElse first second) (Rule.orElse first' second') := by
  intro text
  unfold Rule.orElse
  obtain heq | ⟨rest, script, hdeep⟩ := h text
  · rw [heq]
    cases first' text with
    | done a middle script => exact .inl rfl
    | declined script =>
      obtain heq | ⟨rest, more, hdeep⟩ := k text
      · exact .inl (congrArg (Outcome.after script) heq)
      · exact .inr ⟨rest, script ++ more, congrArg (Outcome.after script) hdeep⟩
    | failed mistake rest script => exact .inl rfl
  · rw [hdeep]
    exact .inr ⟨rest, script, rfl⟩

theorem collect (h : Curtails rule rule') : Curtails (Rule.collect rule) (Rule.collect rule') := by
  have hwithin : ∀ bound : List Char,
      Curtails (Rule.collectWithin rule bound) (Rule.collectWithin rule' bound) := by
    intro bound
    induction bound with
    | nil => exact refl _
    | cons _ bound ih =>
      refine h.optional.bind fun found => ?_
      cases found with
      | none => exact refl _
      | some value => exact ih.before _
  exact fun text => hwithin text text

end Curtails

end Grammar

namespace TreeGrammar

open Grammar
open Grammar.Rule

/-! ## Rule by rule -/

section

variable {α : Type} {element element' : Rule α} {inner inner' : Rule Tree}

theorem listed_curtails (h : Curtails element element') (missing : Mistake) :
    Curtails (listed element missing) (listed element' missing) := by
  refine h.optional.bind fun found => ?_
  cases found with
  | none => exact .refl _
  | some value =>
    refine Curtails.before (Curtails.collect ?_) _
    exact .after _ fun _ => .after _ fun _ => .after _ fun _ => h.must missing

variable (h : Curtails inner inner')

include h

theorem segments_curtails (quote : Option Char) :
    Curtails (segments inner quote) (segments inner' quote) := by
  refine Curtails.collect (.orElse ?_ (.refl _))
  exact .after _ fun _ => .after _ fun _ => h.optional.before _

theorem anyQuoted_curtails : Curtails (anyQuoted inner) (anyQuoted inner') :=
  .orElse (.after _ fun _ => (segments_curtails h _).before _)
    (.after _ fun _ => (segments_curtails h _).before _)

theorem mapEntry_curtails : Curtails (mapEntry inner) (mapEntry inner') :=
  (anyQuoted_curtails h).bind fun _ => .after _ fun _ => .after _ fun _ => .after _ fun _ =>
    (h.must _).before _

theorem accessible_curtails : Curtails (accessible inner) (accessible inner') := by
  have hgroup : Curtails (group inner) (group inner') :=
    .after _ fun _ => .after _ fun _ => (h.must _).before _
  have harray : Curtails (array inner) (array inner') :=
    .after _ fun _ => .after _ fun _ => (listed_curtails h _).before _
  have hmap : Curtails (map inner) (map inner') :=
    .after _ fun _ => .after _ fun _ => (listed_curtails (mapEntry_curtails h) _).before _
  exact hgroup.orElse <| (Curtails.refl _).orElse <| (Curtails.refl _).orElse <| harray.orElse hmap

theorem access_curtails : Curtails (access inner) (access inner') := by
  have hindex : Curtails (indexAccess inner) (indexAccess inner') :=
    .after _ fun _ => .after _ fun _ => (h.must _).before _
  have hcall : Curtails (call inner) (call inner') :=
    .after _ fun _ => .after _ fun _ => (listed_curtails h _).before _
  exact .after _ fun _ => (Curtails.refl _).orElse (hindex.orElse hcall)

theorem factor_curtails : Curtails (factor inner) (factor inner') := by
  have hchain : Curtails (accessChain inner) (accessChain inner') :=
    (accessible_curtails h).bind fun _ => (access_curtails h).collect.before _
  exact (Curtails.refl _).orElse <| (Curtails.refl _).orElse <| hchain.orElse <|
    (Curtails.refl _).orElse (anyQuoted_curtails h)

theorem unary_curtails : Curtails (unary inner) (unary inner') := by
  refine .after _ fun ops => ?_
  cases ops with
  | nil => exact factor_curtails h
  | cons op ops => exact ((factor_curtails h).must _).before _

omit h in
theorem linked_curtails (lower : Nat) (h : Curtails (ranked inner lower) (ranked inner' lower))
    (fold : Tree → List (Operator × Tree) → Tree) :
    Curtails (linked inner lower fold) (linked inner' lower fold) := by
  refine Curtails.before (h.bind fun _ => Curtails.before (Curtails.collect ?_) _) _
  exact .after _ fun _ => .after _ fun _ => .after _ fun _ => (h.must _).before _

theorem coalescing_curtails : Curtails (coalescing inner) (coalescing inner') := by
  have hterm := linked_curtails 2 (unary_curtails h) Tree.fromLeft
  have hsum := linked_curtails 3 hterm Tree.fromLeft
  have hcomparison := linked_curtails 4 hsum Tree.fromLeft
  have hequality := linked_curtails 5 hcomparison Tree.fromLeft
  have hconjunction := linked_curtails 6 hequality Tree.fromLeft
  have hdisjunction := linked_curtails 7 hconjunction Tree.fromLeft
  exact linked_curtails 8 hdisjunction Tree.fromRight

theorem choice_curtails : Curtails (choice inner) (choice inner') := by
  refine (coalescing_curtails h).bind fun condition => .after _ fun found => ?_
  cases found with
  | none => exact .refl _
  | some _ =>
    have hbranches : Curtails (branches inner) (branches inner') :=
      .after _ fun _ => h.bind fun _ => .after _ fun _ => .after _ fun _ => .after _ fun _ =>
        h.before _
    exact (hbranches.must _).before _

end

/-- **Allowing fewer expressions** makes no difference, or the nesting is too deep. -/
theorem expression_curtails {depth depth' : Nat} (hle : depth ≤ depth') :
    Curtails (expression depth) (expression depth') := by
  induction depth generalizing depth' with
  | zero => exact fun text => .inr ⟨text, [], rfl⟩
  | succ depth ih =>
    obtain ⟨depth', rfl⟩ := Nat.exists_eq_succ_of_ne_zero (Nat.ne_zero_of_lt hle)
    exact choice_curtails (ih (Nat.le_of_succ_le_succ hle))

/-! ## Templates -/

variable {pieces : List Tree} {text : List Char}

/-- **A template whose expressions are nested too deeply is rejected for that.** -/
theorem read_tooDeep (h : Tree.IsTemplate pieces text)
    (hdeep : depthLimit < Tree.nestingAll 1 pieces) : ∃ rest, read text = .error (.tooDeep, rest) := by
  -- without the limit the template would be read, and not otherwise than with it
  have hparses : segments _ none text = _ := template_parses h (Nat.le_refl _)
  obtain heq | ⟨rest, script, hfailed⟩ :=
    segments_curtails (expression_curtails (Nat.le_of_lt hdeep)) none text
  · have hread : Completes (segments (expression depthLimit) none) text pieces [] :=
      ⟨[], heq.trans hparses⟩
    exact absurd (template_taken hread).2 (Nat.not_le.mpr hdeep)
  · refine ⟨rest, ?_⟩
    unfold read
    rw [show template text = _ from hfailed]

end TreeGrammar

end LiveTemplate
