import LiveTemplate.Proofs.Template.Commitment
/-!
# The verdict on a text

Names are looked up and operators are applied in the middle of reading, so that two scopes put
different values on the stacks.  Neither the grammar nor the machine of regions looks at these
values.  So both readings are in lockstep: whatever part of the grammar is tried, the stacks have the
same shape on both sides, the same regions with as many operands and with the same operators.  And
they come to the same verdict: the text is accepted in both scopes, or rejected in both for the same
mistake at the same place.

Only the overflow of a day count can keep one of them from coming to its verdict.
-/

set_option autoImplicit false

namespace LiveTemplate

open Grammar (Part Script Tried)
open Run (Ends)

/-! ## Stacks of one shape -/

section

variable {α β γ : Type} {Q : α → γ → Prop} {Q' : β → γ → Prop}

/-- The same operators, and as many operands. -/
abbrev Regions.SameForm (r : Regions α) (s : Regions β) : Prop :=
  Regions.Corresponds (fun _ _ => True) r s

theorem forall₂_meet {R : α → γ → Prop} {S : β → γ → Prop} {T : α → β → Prop}
    (h : ∀ a b c, R a c → S b c → T a b) {xs : List α} {ys : List β} {zs : List γ}
    (hx : List.Forall₂ R xs zs) (hy : List.Forall₂ S ys zs) : List.Forall₂ T xs ys := by
  induction hx generalizing ys with
  | nil =>
    cases hy
    exact .nil
  | cons hac _ ih =>
    cases hy with
    | cons hbc hrest => exact .cons (h _ _ _ hac hbc) (ih hrest)

theorem Region.Corresponds.meet {r : Region α} {s : Region β} {t : Region γ}
    (h : Region.Corresponds Q r t) (k : Region.Corresponds Q' s t) :
    Region.Corresponds (fun _ _ => True) r s where
  operands := forall₂_meet (fun _ _ _ _ _ => trivial) h.operands k.operands
  operators := h.operators.trans k.operators.symm

/-- Stacks that correspond to the same stacks have one form. -/
theorem Regions.Corresponds.meet {r : Regions α} {s : Regions β} {t : Regions γ}
    (h : Regions.Corresponds Q r t) (k : Regions.Corresponds Q' s t) : r.SameForm s := by
  refine ⟨h.current.meet k.current, forall₂_meet ?_ h.outer k.outer⟩
  exact fun _ _ _ hr hs => hr.meet hs

end

namespace Template

variable {store store' : Store} {scope scope' : ScopeId}

/-- A script that the machine on terms can take leads to stacks of one form in any two scopes. -/
theorem Reached.sameForm {script : Script} {last : Regions Term}
    (ht : Takes Regions.empty script last) {regions regions' : Regions Value}
    (h : Reached store scope script regions) (h' : Reached store' scope' script regions') :
    regions.SameForm regions' := by
  have hfollows : ∀ {store scope regions}, Reached store scope script regions →
      Regions.Corresponds (fun v term => Term.Gives store scope term v) regions last := by
    rintro store scope regions ⟨steps, hsteps, e, e', hr⟩
    exact (run_follows hsteps.resolves (Regions.empty_corresponds _) ht).value hr
  exact (hfollows h).meet (hfollows h')

/-! ## The verdict -/

/-- The mistake for which a text is rejected, if it is. -/
def mistake? : Except SyntaxError Value → Option SyntaxError
  | .ok _ => none
  | .error mistake => some mistake

/-- The mistake for which the reader of trees rejects a text, if it does. -/
def verdict (source : String) : Option SyntaxError :=
  match TreeGrammar.read source.toList with
  | .ok _ => none
  | .error (cause, rest) =>
    some (SyntaxError.atOffset cause source (source.utf8ByteSize - Position.byteLength rest))

/-- The verdict is passed by the reader of trees, which knows of no scope. -/
theorem parse_mistake (store : Store) (scope : ScopeId) (source : String) :
    Ends (fun result => mistake? result = verdict source) Fault.IsOverflow
      (parse store scope source) := by
  refine (parse_ends store scope source).mono (fun result hresult => ?_) fun _ hx => hx
  unfold verdict
  cases result with
  | ok v =>
    obtain ⟨tree, hread, -⟩ := hresult
    rw [hread]
    rfl
  | error mistake =>
    obtain ⟨cause, rest, hread, rfl⟩ := hresult
    rw [hread]
    rfl

/-- Two readings agree: both succeed, or both reject the text for the same mistake.  One that broke
off, for the overflow of a day count, has nothing to say. -/
def Agreed : Except Fault (Except SyntaxError Value) → Except Fault (Except SyntaxError Value) → Prop
  | .ok (.ok _), .ok (.ok _) => True
  | .ok (.error mistake), .ok (.error mistake') => mistake = mistake'
  | .error fault, .ok _ => fault.IsOverflow
  | .ok _, .error fault => fault.IsOverflow
  | .error fault, .error fault' => fault.IsOverflow ∧ fault'.IsOverflow
  | _, _ => False

/-- **Whether a text is a template does not depend on the scope.**  Read in any two scopes it is
accepted in both, or rejected in both for the same mistake at the same place.  On the way, wherever
a part of the grammar is tried, the stacks have the same form in both. -/
theorem parse_in_lockstep (source : String) (store store' : Store) (scope scope' : ScopeId) :
    (∀ e f, Agreed ((parse store scope source).run e).1 ((parse store' scope' source).run f).1) ∧
    ∀ part depth left script regions regions', Tried source.toList part depth left script →
      Reached store scope script regions → Reached store' scope' script regions' →
      regions.SameForm regions' := by
  constructor
  · intro e f
    have h := parse_mistake store scope source e
    have h' := parse_mistake store' scope' source f
    revert h h'
    rcases (parse store scope source).run e with ⟨fault | mistake | v, e'⟩ <;>
      rcases (parse store' scope' source).run f with ⟨fault' | mistake' | v', f'⟩ <;>
      intro h h'
    · exact ⟨h, h'⟩
    · exact h
    · exact h
    · exact h'
    · exact Option.some.inj (h.trans h'.symm)
    · cases h.trans h'.symm
    · exact h'
    · cases h.trans h'.symm
    · trivial
  · intro part depth left script regions regions' htried hreached hreached'
    obtain ⟨start, ht, -⟩ := htried.ready
    exact hreached.sameForm ht hreached'

/-- The name is a constant in one scope, and nobody binds it in the other one. -/
theorem parse_in_lockstep_of_name :
    let source := "$\x7bx\x7d-"
    let bound : Store := ⟨[⟨[0], [("x", ⟨.text "b", .constant⟩)], {}, {}⟩], [0], []⟩
    let script : Script := [.enter, .push (.name "x"), .foldLeft .term, .foldLeft .sum,
      .foldLeft .comparison, .foldLeft .equality, .foldLeft .conjunction, .foldLeft .disjunction,
      .foldRight .coalescing, .leave .single]
    let regions : Regions Value := ⟨⟨[.text "b"], []⟩, []⟩
    let regions' : Regions Value := ⟨⟨[.null], []⟩, []⟩
    (∀ e f, Agreed ((parse bound 0 source).run e).1 ((parse Store.empty 0 source).run f).1) ∧
    Tried source.toList (.segment none) Grammar.depthLimit ['-'] script ∧
    Reached bound 0 script regions ∧ Reached Store.empty 0 script regions' ∧
    regions.SameForm regions' := by
  intro source bound script regions regions'
  obtain ⟨hagreed, hform⟩ := parse_in_lockstep source bound Store.empty 0 0
  have htried : Tried source.toList (.segment none) Grammar.depthLimit ['-'] script :=
    .call .template (.templateSegment 1) (by cbv)
  have hreached : Reached bound 0 script regions :=
    ⟨_, ⟨Effects.initial 1, Effects.initial 1, rfl⟩, Effects.initial 1, Effects.initial 1, rfl⟩
  have hreached' : Reached Store.empty 0 script regions' :=
    ⟨_, ⟨Effects.initial 1, Effects.initial 1, rfl⟩, Effects.initial 1, Effects.initial 1, rfl⟩
  exact ⟨hagreed, htried, hreached, hreached', hform _ _ _ _ _ _ htried hreached hreached'⟩

end Template

end LiveTemplate
