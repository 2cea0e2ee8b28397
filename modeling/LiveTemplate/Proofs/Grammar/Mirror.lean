import LiveTemplate.Proofs.Syntax.Term
/-!
# Reading in step

The program's rule for a construct and the rule that reads the same construct into a tree are to
be compared text by text: both end in the same way, with the same text left, and the steps that
the one emits lead the machine to where the tree of the other one says.  `Mirrors` says this for
the machine in a given state, and this file has a rule of proof for each way of combining rules.
Every law of the grammar comes from these, construct by construct.

## When a rule declines

Another rule is tried on the text of a rule that declined, and whatever the first one had emitted
stays emitted.  So it matters in which state a rule may decline.

* `never`: it does not decline at all.
* `clean`: it declines only before it emits anything.
* `running`: it may have emitted steps, which the machine can take.  Such a rule is safe only
  where declining counts as a mistake.

A rule that may decline cleanly stays so when it is followed by one that never declines, and by
nothing less: that is the law of commitment on which the whole grammar rests.
-/

set_option autoImplicit false

namespace LiveTemplate.Grammar

/-- In which states a rule may decline. -/
inductive Refusal where
  | never
  | clean
  | running

/-- May the rule have emitted this script from this state and then decline? -/
def Refusal.allows (regions : Regions Term) (script : Script) : Refusal → Prop
  | .never => False
  | .clean => script = []
  | .running => ∃ last, Takes regions script last

theorem Refusal.allows_takes {refusal : Refusal} {regions : Regions Term} {script : Script}
    (h : refusal.allows regions script) : ∃ last, Takes regions script last := by
  cases refusal with
  | never => exact h.elim
  | clean =>
    obtain rfl : script = [] := h
    exact ⟨regions, .nil regions⟩
  | running => exact h

variable {α β γ δ : Type}

/-- Two ways of ending that mirror each other. -/
inductive Mirrored (refusal : Refusal) (start : Regions Term) (goal : α → β → Regions Term → Prop) :
    Outcome α → Outcome β → Prop
  | done {a : α} {b : β} {rest : List Char} {script quiet : Script} {last : Regions Term} :
      Takes start script last → goal a b last →
      Mirrored refusal start goal (.done a rest script) (.done b rest quiet)
  | declined {script quiet : Script} :
      refusal.allows start script → Mirrored refusal start goal (.declined script) (.declined quiet)
  | failed {mistake : Mistake} {rest : List Char} {script quiet : Script} {last : Regions Term} :
      Takes start script last →
      Mirrored refusal start goal (.failed mistake rest script) (.failed mistake rest quiet)

/-- On every text the second rule ends as the first one does, and what the first one emits leads
the machine from the given state to one that fits the results. -/
def Mirrors (refusal : Refusal) (start : Regions Term) (rule : Rule α) (mirror : Rule β)
    (goal : α → β → Regions Term → Prop) : Prop :=
  ∀ text, Mirrored refusal start goal (rule text) (mirror text)

namespace Mirrors

variable {refusal refusal' : Refusal} {start : Regions Term} {rule : Rule α} {mirror : Rule β}
  {goal : α → β → Regions Term → Prop}

/-! ## Weakening -/

theorem mono {goal' : α → β → Regions Term → Prop} (h : Mirrors refusal start rule mirror goal)
    (hg : ∀ a b last, goal a b last → goal' a b last) : Mirrors refusal start rule mirror goal' := by
  intro text
  have hrule := h text
  revert hrule
  generalize rule text = outcome, mirror text = outcome'
  intro hrule
  cases hrule with
  | done ht hgoal => exact .done ht (hg _ _ _ hgoal)
  | declined hd => exact .declined hd
  | failed ht => exact .failed ht

theorem refuse (h : Mirrors refusal start rule mirror goal)
    (hr : ∀ script, refusal.allows start script → refusal'.allows start script) :
    Mirrors refusal' start rule mirror goal := by
  intro text
  have hrule := h text
  revert hrule
  generalize rule text = outcome, mirror text = outcome'
  intro hrule
  cases hrule with
  | done ht hgoal => exact .done ht hgoal
  | declined hd => exact .declined (hr _ hd)
  | failed ht => exact .failed ht

/-- A rule that never declines may stand wherever one may that declines. -/
theorem sure (h : Mirrors .never start rule mirror goal) : Mirrors refusal start rule mirror goal :=
  h.refuse fun _ hf => hf.elim

theorem running (h : Mirrors refusal start rule mirror goal) :
    Mirrors .running start rule mirror goal := h.refuse fun _ hd => Refusal.allows_takes hd

/-! ## One rule after another -/

theorem pure {a : α} {b : β} (h : goal a b start) :
    Mirrors refusal start (Pure.pure a : Rule α) (Pure.pure b : Rule β) goal :=
  fun _ => .done (.nil start) h

/-- In sequence, where the second rule may decline after what the first one has emitted. -/
theorem bindWith {goal' : γ → δ → Regions Term → Prop} {next : α → Rule γ} {next' : β → Rule δ}
    (h : Mirrors refusal start rule mirror goal)
    (k : ∀ a b middle, goal a b middle → Mirrors refusal' middle (next a) (next' b) goal')
    (hr : ∀ script middle script', Takes start script middle → refusal'.allows middle script' →
      refusal.allows start (script ++ script')) :
    Mirrors refusal start (rule >>= next) (mirror >>= next') goal' := by
  intro text
  show Mirrored _ _ _ (Rule.bind rule next text) (Rule.bind mirror next' text)
  have hfirst := h text
  unfold Rule.bind
  revert hfirst
  generalize rule text = first, mirror text = first'
  intro hfirst
  cases hfirst with
  | declined hd => exact .declined hd
  | failed ht => exact .failed ht
  | @done a b rest script quiet middle ht hgoal =>
    have hsecond := k a b middle hgoal rest
    revert hsecond
    show _ → Mirrored _ _ _ ((next a rest).after script) ((next' b rest).after quiet)
    generalize next a rest = second, next' b rest = second'
    intro hsecond
    cases hsecond with
    | done ht' hgoal' => exact .done (ht.append ht') hgoal'
    | declined hd => exact .declined (hr _ _ _ ht hd)
    | failed ht' => exact .failed (ht.append ht')

/-- The law of commitment: what follows never declines. -/
theorem bind {goal' : γ → δ → Regions Term → Prop} {next : α → Rule γ} {next' : β → Rule δ}
    (h : Mirrors refusal start rule mirror goal)
    (k : ∀ a b middle, goal a b middle → Mirrors .never middle (next a) (next' b) goal') :
    Mirrors refusal start (rule >>= next) (mirror >>= next') goal' :=
  h.bindWith k fun _ _ _ _ hf => hf.elim

/-- Where declining will count as a mistake, what follows may decline as well. -/
theorem bindRunning {goal' : γ → δ → Regions Term → Prop} {next : α → Rule γ} {next' : β → Rule δ}
    (h : Mirrors .running start rule mirror goal)
    (k : ∀ a b middle, goal a b middle → Mirrors .running middle (next a) (next' b) goal') :
    Mirrors .running start (rule >>= next) (mirror >>= next') goal' :=
  h.bindWith k fun _ _ _ ht ⟨last, hl⟩ => ⟨last, ht.append hl⟩

/-- The first rule emits a script and the second one does nothing. -/
theorem emitWith {emitting : Rule Unit} {script : Script} {next : Unit → Rule α}
    {middle : Regions Term} (he : ∀ text, emitting text = .done () text script)
    (ht : Takes start script middle) (k : Mirrors refusal' middle (next ()) mirror goal)
    (hr : ∀ script', refusal'.allows middle script' → refusal.allows start (script ++ script')) :
    Mirrors refusal start (emitting >>= next) mirror goal := by
  intro text
  have hnext := k text
  show Mirrored _ _ _ (Rule.bind emitting next text) (mirror text)
  unfold Rule.bind
  rw [he text]
  show Mirrored _ _ _ ((next () text).after script) (mirror text)
  revert hnext
  generalize next () text = outcome, mirror text = outcome'
  intro hnext
  cases hnext with
  | done ht' hgoal => exact .done (ht.append ht') hgoal
  | declined hd => exact .declined (hr _ hd)
  | failed ht' => exact .failed (ht.append ht')

theorem emits {emitting : Rule Unit} {script : Script} {next : Unit → Rule α}
    {middle : Regions Term} (he : ∀ text, emitting text = .done () text script)
    (ht : Takes start script middle) (k : Mirrors .never middle (next ()) mirror goal) :
    Mirrors refusal start (emitting >>= next) mirror goal :=
  emitWith he ht k fun _ hf => hf.elim

theorem emit {step : Step Leaf} {next : Unit → Rule α} {middle : Regions Term}
    (ht : Takes start [step] middle) (k : Mirrors .never middle (next ()) mirror goal) :
    Mirrors refusal start (Rule.emit step >>= next) mirror goal :=
  emits (fun _ => rfl) ht k

theorem emitRunning {step : Step Leaf} {next : Unit → Rule α} {middle : Regions Term}
    (ht : Takes start [step] middle) (k : Mirrors .running middle (next ()) mirror goal) :
    Mirrors .running start (Rule.emit step >>= next) mirror goal :=
  emitWith (fun _ => rfl) ht k fun _ ⟨last, hl⟩ => ⟨last, ht.append hl⟩

/-- What the second rule has read is put into another form. -/
theorem reform {goal' : α → γ → Regions Term → Prop} {next' : β → Rule γ}
    (h : Mirrors refusal start rule mirror goal)
    (hg : ∀ a b last, goal a b last → ∃ c, next' b = Pure.pure c ∧ goal' a c last) :
    Mirrors refusal start rule (mirror >>= next') goal' := by
  intro text
  have hrule := h text
  show Mirrored _ _ _ (rule text) (Rule.bind mirror next' text)
  unfold Rule.bind
  revert hrule
  generalize rule text = outcome, mirror text = outcome'
  intro hrule
  cases hrule with
  | @done a b rest script quiet last ht hgoal =>
    obtain ⟨c, hc, hgoal'⟩ := hg a b last hgoal
    show Mirrored _ _ _ _ ((next' b rest).after quiet)
    rw [show next' b rest = .done c rest [] from congrFun hc rest]
    exact .done ht hgoal'
  | declined hd => exact .declined hd
  | failed ht => exact .failed ht

/-- The last thing the first rule does is to emit a step. -/
theorem emitLast {step : Step Leaf} {b : β} {goal : Unit → β → Regions Term → Prop}
    {last : Regions Term} (ht : Takes start [step] last) (h : goal () b last) :
    Mirrors refusal start (Rule.emit step) (Pure.pure b : Rule β) goal := fun _ => .done ht h

/-! ## Rules that emit nothing

Both sides read tokens with the same rules. -/

end Mirrors

/-- The steps that have been emitted, however the rule ended. -/
def Outcome.script : Outcome α → Script
  | .done _ _ script => script
  | .declined script => script
  | .failed _ _ script => script

namespace Rule

/-- The rule emits nothing, however it ends. -/
def Silent (rule : Rule α) : Prop := ∀ text, (rule text).script = []

/-- The rule may give this result. -/
def Yields (rule : Rule α) (a : α) : Prop := ∃ text rest script, rule text = .done a rest script

/-- The rule does not decline. -/
def Sure (rule : Rule α) : Prop := ∀ text script, rule text ≠ .declined script

theorem silent_scan (scanner : List Char → Option (α × List Char)) : (scan scanner).Silent := by
  intro text
  unfold scan
  rcases scanner text with _ | ⟨_, _⟩ <;> rfl

theorem silent_char (c : Char) : (char c).Silent := silent_scan _

theorem silent_blanks : blanks.Silent := fun _ => rfl

theorem sure_blanks : blanks.Sure := fun _ _ h => by cases h

theorem silent_numeral : numeral.Silent := by
  intro text
  unfold numeral
  split
  · split <;> rfl
  · split <;> rfl
  · split <;> rfl
  · rfl

theorem silent_bind {rule : Rule α} {next : α → Rule β} (h : rule.Silent)
    (k : ∀ a, (next a).Silent) : (rule >>= next).Silent := by
  intro text
  show (Rule.bind rule next text).script = []
  have hrule := h text
  unfold Rule.bind
  revert hrule
  generalize rule text = first
  intro hrule
  cases first with
  | declined _ => exact hrule
  | failed _ _ _ => exact hrule
  | done a rest script =>
    obtain rfl : script = [] := hrule
    have hnext := k a rest
    show ((next a rest).after []).script = []
    cases hsecond : next a rest <;> rw [hsecond] at hnext <;> exact hnext

theorem silent_must {rule : Rule α} (h : rule.Silent) (mistake : Mistake) :
    (must mistake rule).Silent := by
  intro text
  have hrule := h text
  unfold must
  cases hfirst : rule text <;> rw [hfirst] at hrule <;> exact hrule

theorem sure_must (rule : Rule α) (mistake : Mistake) : (must mistake rule).Sure := by
  intro text script
  unfold must
  cases rule text <;> simp

theorem silent_optional {rule : Rule α} (h : rule.Silent) : (optional rule).Silent := by
  intro text
  have hrule := h text
  unfold optional
  cases hfirst : rule text <;> rw [hfirst] at hrule <;> exact hrule

theorem sure_optional (rule : Rule α) : (optional rule).Sure := by
  intro text script
  unfold optional
  cases rule text <;> simp

theorem silent_questionMark : questionMark.Silent :=
  silent_bind silent_blanks fun _ => silent_char '?'

end Rule

namespace Mirrors

variable {refusal : Refusal} {start : Regions Term} {goal : γ → δ → Regions Term → Prop}

/-- The same silent rule on both sides.  It may decline where nothing has been emitted yet. -/
theorem silent {rule : Rule α} {next : α → Rule γ} {next' : α → Rule δ} (hs : rule.Silent)
    (hr : refusal.allows start [] ∨ rule.Sure)
    (k : ∀ a, rule.Yields a → Mirrors refusal start (next a) (next' a) goal) :
    Mirrors refusal start (rule >>= next) (rule >>= next') goal := by
  intro text
  show Mirrored _ _ _ (Rule.bind rule next text) (Rule.bind rule next' text)
  have hscript := hs text
  unfold Rule.bind
  cases hrule : rule text with
  | declined script =>
    rw [hrule] at hscript
    obtain rfl : script = [] := hscript
    exact .declined (hr.resolve_right fun hsure => hsure text [] hrule)
  | failed mistake rest script =>
    rw [hrule] at hscript
    obtain rfl : script = [] := hscript
    exact .failed (.nil start)
  | done a rest script =>
    rw [hrule] at hscript
    obtain rfl : script = [] := hscript
    have hnext := k a ⟨text, rest, [], hrule⟩ rest
    revert hnext
    show _ → Mirrored _ _ _ ((next a rest).after []) ((next' a rest).after [])
    generalize next a rest = second, next' a rest = second'
    intro hnext
    cases hnext with
    | done ht hgoal => exact .done ht hgoal
    | declined hd => exact .declined hd
    | failed ht => exact .failed ht

theorem blanks {next : Unit → Rule γ} {next' : Unit → Rule δ}
    (k : Mirrors refusal start (next ()) (next' ()) goal) :
    Mirrors refusal start (Rule.blanks >>= next) (Rule.blanks >>= next') goal :=
  silent Rule.silent_blanks (.inr Rule.sure_blanks) fun _ _ => k

/-- A token that must be there. -/
theorem mustSilent {rule : Rule α} {next : α → Rule γ} {next' : α → Rule δ} (hs : rule.Silent)
    (mistake : Mistake) (k : ∀ a, Mirrors refusal start (next a) (next' a) goal) :
    Mirrors refusal start (Rule.must mistake rule >>= next) (Rule.must mistake rule >>= next') goal :=
  silent (Rule.silent_must hs mistake) (.inr (Rule.sure_must rule mistake)) fun a _ => k a

/-- The token by which a rule commits itself. -/
theorem token {rule : Rule α} {next : α → Rule γ} {next' : α → Rule δ} (hs : rule.Silent)
    (k : ∀ a, rule.Yields a → Mirrors .clean start (next a) (next' a) goal) :
    Mirrors .clean start (rule >>= next) (rule >>= next') goal :=
  silent hs (.inl rfl) k

theorem decline {next : α → Rule γ} {next' : α → Rule δ} :
    Mirrors .clean start (Rule.decline >>= next) (Rule.decline >>= next') goal :=
  fun _ => .declined rfl

theorem fail {goal : α → β → Regions Term → Prop} (mistake : Mistake) :
    Mirrors refusal start (Rule.fail mistake : Rule α) (Rule.fail mistake : Rule β) goal :=
  fun _ => .failed (.nil start)

/-! ## Alternatives and repetition -/

variable {rule : Rule α} {mirror : Rule β}

theorem must {goal : α → β → Regions Term → Prop} (mistake : Mistake)
    (h : Mirrors refusal start rule mirror goal) :
    Mirrors .never start (Rule.must mistake rule) (Rule.must mistake mirror) goal := by
  intro text
  have hrule := h text
  unfold Rule.must
  revert hrule
  generalize rule text = outcome, mirror text = outcome'
  intro hrule
  cases hrule with
  | done ht hgoal => exact .done ht hgoal
  | declined hd =>
    obtain ⟨last, ht⟩ := Refusal.allows_takes hd
    exact .failed ht
  | failed ht => exact .failed ht

/-- What was tried has been read by both sides, or by neither. -/
def Optionally (start : Regions Term) (goal : α → β → Regions Term → Prop) :
    Option α → Option β → Regions Term → Prop
  | some a, some b, last => goal a b last
  | none, none, last => last = start
  | _, _, _ => False

theorem optional {goal : α → β → Regions Term → Prop} (h : Mirrors .clean start rule mirror goal) :
    Mirrors .never start (Rule.optional rule) (Rule.optional mirror) (Optionally start goal) := by
  intro text
  have hrule := h text
  unfold Rule.optional
  revert hrule
  generalize rule text = outcome, mirror text = outcome'
  intro hrule
  cases hrule with
  | done ht hgoal => exact .done ht hgoal
  | @declined script quiet hd =>
    obtain rfl : script = [] := hd
    exact .done (.nil start) rfl
  | failed ht => exact .failed ht

theorem orElse {goal : α → β → Regions Term → Prop} {other : Rule α} {other' : Rule β}
    (h : Mirrors .clean start rule mirror goal) (k : Mirrors refusal start other other' goal) :
    Mirrors refusal start (Rule.orElse rule other) (Rule.orElse mirror other') goal := by
  intro text
  have hrule := h text
  have hother := k text
  unfold Rule.orElse
  revert hrule
  generalize rule text = outcome, mirror text = outcome'
  intro hrule
  cases hrule with
  | done ht hgoal => exact .done ht hgoal
  | failed ht => exact .failed ht
  | @declined script quiet hd =>
    obtain rfl : script = [] := hd
    revert hother
    show _ → Mirrored _ _ _ ((other text).after []) ((other' text).after quiet)
    generalize other text = second, other' text = second'
    intro hother
    cases hother with
    | done ht hgoal => exact .done ht hgoal
    | declined hd => exact .declined hd
    | failed ht => exact .failed ht

/-- Repetition, with what has been collected so far and the state it has led to. -/
theorem manyWithin {rule : Rule Unit} (inv : List β → Regions Term → Prop)
    (h : ∀ found middle, inv found middle →
      Mirrors .clean middle rule mirror fun _ b last => inv (found ++ [b]) last)
    (bound : List Char) {found : List β} (hinv : inv found start) :
    Mirrors .never start (Rule.repeatWithin rule bound) (Rule.collectWithin mirror bound)
      fun _ more last => inv (found ++ more) last := by
  induction bound generalizing found start with
  | nil => exact fun _ => .done (.nil start) (by simpa using hinv)
  | cons c bound ih =>
    intro text
    have hrule := h found start hinv text
    show Mirrored _ _ _ (Rule.repeatWithin rule (c :: bound) text)
      (Rule.bind (Rule.optional mirror) _ text)
    unfold Rule.repeatWithin Rule.bind Rule.optional
    revert hrule
    generalize rule text = outcome, mirror text = outcome'
    intro hrule
    cases hrule with
    | failed ht => exact .failed ht
    | @declined script quiet hd =>
      obtain rfl : script = [] := hd
      exact .done (.nil start) (by simpa using hinv)
    | @done a b rest script quiet middle ht hgoal =>
      have hrest := ih hgoal rest
      revert hrest
      show _ → Mirrored _ _ _ ((Rule.repeatWithin rule bound rest).after script)
        ((Rule.bind (Rule.collectWithin mirror bound) (fun more => Pure.pure (b :: more)) rest).after quiet)
      unfold Rule.bind
      generalize Rule.repeatWithin rule bound rest = second,
        Rule.collectWithin mirror bound rest = second'
      intro hrest
      cases hrest with
      | done ht' hinv' => exact .done (ht.append ht') (by simpa using hinv')
      | failed ht' => exact .failed (ht.append ht')
      | declined hd => exact hd.elim

theorem many {rule : Rule Unit} (inv : List β → Regions Term → Prop)
    (h : ∀ found middle, inv found middle →
      Mirrors .clean middle rule mirror fun _ b last => inv (found ++ [b]) last)
    (hinv : inv [] start) :
    Mirrors .never start (Rule.many rule) (Rule.collect mirror) fun _ found last => inv found last :=
  fun text => manyWithin inv h text hinv text

end Mirrors

end LiveTemplate.Grammar
