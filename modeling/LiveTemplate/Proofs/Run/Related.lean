import LiveTemplate.Effects
import Mathlib.Data.List.Forall2
/-!
# Two runs side by side

Most of what is said about evaluation compares two computations: one that was folded while the
template was read with one that was not, one in a scope with one in another scope, a reading by
the machine of regions with the syntax tree it should have made.  This file has the rules for such
comparisons, so that no later proof opens the monad again.

`Related link lone R c d` says: started in effects that are linked, `c` and `d` end alike.  Either
both have values, and `R` relates them, or both end in the same fault; and the effects are linked
again.  The one exception is `lone`: the *first* computation may break off with a fault of that
kind while the second one goes on.  Folding needs it, because folding computes ahead what a later
evaluation might have skipped.

## Which effects are linked

Three links are used.

* `Effects.Agree`: the same random numbers are to come and the same impure calls have been made.
  References may differ; they are handed out in a different order by two runs that fold
  differently, and nobody but identity looks at them.
* `Effects.Beside a b`: the one run agrees with `a` and the other with `b`.  Relating two
  computations by this link for all `a` and `b` says that neither draws a number nor calls
  anything impure, and that neither depends on what was drawn or called before.
* `Effects.Always`: any two effects are linked, where only values matter.

All three are *loose*: they do not look at references.
-/

set_option autoImplicit false

namespace LiveTemplate

/-- The same random numbers are to come and the same impure calls have been made. -/
structure Effects.Agree (e f : Effects) : Prop where
  seed : e.seed = f.seed
  calls : e.calls = f.calls

namespace Effects

theorem Agree.refl (e : Effects) : e.Agree e := ⟨rfl, rfl⟩

theorem Agree.symm {e f : Effects} (h : e.Agree f) : f.Agree e := ⟨h.seed.symm, h.calls.symm⟩

theorem Agree.trans {e f g : Effects} (h : e.Agree f) (k : f.Agree g) : e.Agree g :=
  ⟨h.seed.trans k.seed, h.calls.trans k.calls⟩

/-- One run agrees with `a` and the other one with `b`. -/
def Beside (a b : Effects) : Effects → Effects → Prop := fun e f => e.Agree a ∧ f.Agree b

/-- The link does not look at references. -/
def Loose (link : Effects → Effects → Prop) : Prop :=
  ∀ {e f e' f' : Effects}, link e f → e.Agree e' → f.Agree f' → link e' f'

theorem loose_agree : Loose Agree := fun h he hf => (he.symm.trans h).trans hf

theorem loose_beside (a b : Effects) : Loose (Beside a b) :=
  fun h he hf => ⟨he.symm.trans h.1, hf.symm.trans h.2⟩

/-- Any two effects. -/
def Always (_ _ : Effects) : Prop := True

theorem loose_always : Loose Always := fun _ _ _ => trivial

end Effects

namespace Run

variable {α β γ δ : Type}

/-! ## Opening a computation

The only place where the layers of the monad are looked at.  What a computation changes as it goes
are effects here, but these laws hold whatever that is. -/

theorem run_bind {σ : Type} (c : ExceptT Fault (StateM σ) α) (next : α → ExceptT Fault (StateM σ) β)
    (e : σ) : (c >>= next).run e = match c.run e with
      | (.ok a, e') => (next a).run e'
      | (.error fault, e') => (.error fault, e') := by
  show (ExceptT.bind c next) e = _
  simp only [ExceptT.bind, ExceptT.mk, ExceptT.bindCont, bind, StateT.bind, ExceptT.run]
  generalize c e = outcome
  rcases outcome with ⟨_ | _, _⟩ <;> rfl

@[simp]
theorem run_pure {σ : Type} (a : α) (e : σ) :
    (pure a : ExceptT Fault (StateM σ) α).run e = (.ok a, e) := rfl

@[simp]
theorem run_throw (fault : Fault) (e : Effects) : (throw fault : Run α).run e = (.error fault, e) :=
  rfl

@[simp]
theorem throw_bind (fault : Fault) (next : α → Run β) : (throw fault : Run α) >>= next = throw fault :=
  rfl

/-! ## What a single run ends in -/

/-- The computation ends in a value of one kind or in a fault of one kind. -/
def Ends (value : α → Prop) (fault : Fault → Prop) (c : Run α) : Prop :=
  ∀ e, match c.run e with
    | (.ok a, _) => value a
    | (.error x, _) => fault x

theorem Ends.pure {value : α → Prop} {fault : Fault → Prop} {a : α} (h : value a) :
    Ends value fault (pure a : Run α) := fun _ => h

theorem Ends.throw {value : α → Prop} {fault : Fault → Prop} {x : Fault} (h : fault x) :
    Ends value fault (throw x : Run α) := fun _ => h

theorem Ends.bind {value : α → Prop} {value' : β → Prop} {fault : Fault → Prop} {c : Run α}
    {next : α → Run β} (h : Ends value fault c) (k : ∀ a, value a → Ends value' fault (next a)) :
    Ends value' fault (c >>= next) := by
  intro e
  rw [run_bind]
  have hc := h e
  rcases hr : c.run e with ⟨x | a, e'⟩ <;> rw [hr] at hc
  · exact hc
  · exact k a hc e'

theorem Ends.mono {value value' : α → Prop} {fault fault' : Fault → Prop} {c : Run α}
    (h : Ends value fault c) (hv : ∀ a, value a → value' a) (hf : ∀ x, fault x → fault' x) :
    Ends value' fault' c := by
  intro e
  have hc := h e
  rcases hr : c.run e with ⟨x | a, e'⟩ <;> rw [hr] at hc
  · exact hf x hc
  · exact hv a hc

/-- Two things that are known of what a computation ends in. -/
theorem Ends.both {value value' : α → Prop} {fault fault' : Fault → Prop} {c : Run α}
    (h : Ends value fault c) (k : Ends value' fault' c) :
    Ends (fun a => value a ∧ value' a) (fun x => fault x ∧ fault' x) c := by
  intro e
  have hc := h e
  have kc := k e
  rcases hr : c.run e with ⟨x | a, e'⟩ <;> rw [hr] at hc kc
  · exact ⟨hc, kc⟩
  · exact ⟨hc, kc⟩

theorem Ends.value {value : α → Prop} {fault : Fault → Prop} {c : Run α} (h : Ends value fault c)
    {e e' : Effects} {a : α} (hr : c.run e = (.ok a, e')) : value a := by
  have hc := h e
  rwa [hr] at hc

theorem Ends.fault {value : α → Prop} {fault : Fault → Prop} {c : Run α} (h : Ends value fault c)
    {e e' : Effects} {x : Fault} (hr : c.run e = (.error x, e')) : fault x := by
  have hc := h e
  rwa [hr] at hc

/-- Nothing is said of the end. -/
theorem Ends.any (c : Run α) : Ends (fun _ => True) (fun _ => True) c := fun e => by
  rcases c.run e with ⟨_ | _, _⟩ <;> trivial

theorem Ends.fresh {fault : Fault → Prop} : Ends (fun _ => True) fault fresh := fun _ => trivial

/-! ## What two runs end in -/

/-- No fault is met. -/
def Never : Fault → Prop := fun _ => False

/-- A computation that meets no fault ends in a value. -/
theorem Ends.succeeds {value : α → Prop} {c : Run α} (h : Ends value Never c) (e : Effects) :
    ∃ a e', c.run e = (.ok a, e') ∧ value a := by
  have hc := h e
  rcases hr : c.run e with ⟨x | a, e'⟩ <;> rw [hr] at hc
  · exact hc.elim
  · exact ⟨a, e', rfl, hc⟩

/-- Two ends that belong together. -/
inductive Paired (link : Effects → Effects → Prop) (lone : Fault → Prop) (R : α → β → Prop) :
    Except Fault α × Effects → Except Fault β × Effects → Prop
  | values {a : α} {b : β} {e f : Effects} : R a b → link e f → Paired link lone R (.ok a, e) (.ok b, f)
  | faults {x : Fault} {e f : Effects} : link e f → Paired link lone R (.error x, e) (.error x, f)
  | alone {x : Fault} {e : Effects} {other : Except Fault β × Effects} :
      lone x → Paired link lone R (.error x, e) other

theorem Paired.imp {link : Effects → Effects → Prop} {lone lone' : Fault → Prop} {R R' : α → β → Prop}
    {first : Outcome α} {second : Outcome β} (h : Paired link lone R first second)
    (hR : ∀ a b, R a b → R' a b) (hlone : ∀ x, lone x → lone' x) : Paired link lone' R' first second := by
  cases h with
  | values hab he => exact .values (hR _ _ hab) he
  | faults he => exact .faults he
  | alone hx => exact .alone (hlone _ hx)

/-- Where nothing breaks off alone, both runs leave linked effects. -/
theorem Paired.linked {link : Effects → Effects → Prop} {R : α → β → Prop} {first : Outcome α}
    {second : Outcome β} (h : Paired link Never R first second) : link first.2 second.2 := by
  cases h with
  | values _ he => exact he
  | faults he => exact he
  | alone hx => exact hx.elim

/-- Started in linked effects, two computations end alike, but for the faults with which the first
may break off alone. -/
def Related (link : Effects → Effects → Prop) (lone : Fault → Prop) (R : α → β → Prop) (c : Run α)
    (d : Run β) : Prop :=
  ∀ e f, link e f → Paired link lone R (c.run e) (d.run f)

variable {link : Effects → Effects → Prop} {lone : Fault → Prop} {R : α → β → Prop}
  {S : γ → δ → Prop}

theorem Related.pure {a : α} {b : β} (h : R a b) :
    Related link lone R (pure a : Run α) (pure b : Run β) := fun _ _ he => .values h he

theorem Related.throw (x : Fault) : Related link lone R (throw x : Run α) (throw x : Run β) :=
  fun _ _ he => .faults he

theorem Related.bind {c : Run α} {d : Run β} {next : α → Run γ} {next' : β → Run δ}
    (h : Related link lone R c d)
    (k : ∀ a b, R a b → Related link lone S (next a) (next' b)) :
    Related link lone S (c >>= next) (d >>= next') := by
  intro e f he
  rw [run_bind, run_bind]
  have hp := h e f he
  revert hp
  generalize c.run e = first, d.run f = second
  intro hp
  cases hp with
  | values hR he' => exact k _ _ hR _ _ he'
  | faults he' => exact .faults he'
  | alone hx => exact .alone hx

theorem Related.mono {R' : α → β → Prop} {c : Run α} {d : Run β} (h : Related link lone R c d)
    (hR : ∀ a b, R a b → R' a b) : Related link lone R' c d :=
  fun e f he => (h e f he).imp hR fun _ hx => hx

/-- What never breaks off alone may be used where it would be allowed to. -/
theorem Related.allow {c : Run α} {d : Run β} (h : Related link Never R c d) :
    Related link lone R c d :=
  fun e f he => (h e f he).imp (fun _ _ hR => hR) fun _ hx => hx.elim

theorem Related.fresh (hl : Effects.Loose link) :
    Related link lone (fun _ _ => True) Run.fresh Run.fresh :=
  fun _ _ he => .values trivial (hl he ⟨rfl, rfl⟩ ⟨rfl, rfl⟩)

/-- A reference is handed out and forgotten. -/
theorem Related.fresh_bind (hl : Effects.Loose link) {next : Ref → Run α} {next' : Ref → Run β}
    (k : ∀ m n, Related link lone R (next m) (next' n)) :
    Related link lone R (Run.fresh >>= next) (Run.fresh >>= next') :=
  (Related.fresh hl).bind fun m n _ => k m n

/-- What a related computation ends in, where any two effects are linked. -/
theorem Related.ends {c : Run α} {d : Run β} (h : Related Effects.Always Never R c d)
    {e e' : Effects} {a : α} (hr : c.run e = (.ok a, e')) : Ends (R a) Never d := by
  intro f
  have hp := h e f trivial
  rw [hr] at hp
  revert hp
  generalize d.run f = second
  intro hp
  cases hp with
  | values hR _ => exact hR

/-- What a computation ends in that is related to a result. -/
theorem Related.ends_of_pure {R : α → β → Prop} {c : Run α} {b : β}
    (h : Related Effects.Always lone R c (Pure.pure b)) : Ends (fun a => R a b) lone c := by
  intro e
  have hp := h e e trivial
  revert hp
  rw [run_pure]
  generalize c.run e = outcome
  intro hp
  cases hp with
  | values hR _ => exact hR
  | alone hx => exact hx

/-- Two computations that are related to a third one are related to one another. -/
theorem Related.meet {R : α → γ → Prop} {S : β → γ → Prop} {c : Run α} {d : Run β} {third : Run γ}
    (h : Related Effects.Always Never R c third) (k : Related Effects.Always Never S d third) :
    Related Effects.Always Never (fun a b => ∃ x, R a x ∧ S b x) c d := by
  intro e f _
  have hp := h e e trivial
  have kp := k f e trivial
  revert hp kp
  generalize c.run e = first, d.run f = second, third.run e = last
  intro hp kp
  cases hp with
  | values hR _ =>
    cases kp with
    | values hS _ => exact .values ⟨_, hR, hS⟩ trivial
    | alone hx => exact hx.elim
  | faults _ =>
    cases kp with
    | faults _ => exact .faults trivial
    | alone hx => exact hx.elim
  | alone hx => exact hx.elim

/-- Where effects agree, it does not matter which computation comes first. -/
theorem Related.symm {R : α → β → Prop} {c : Run α} {d : Run β} (h : Related Effects.Agree Never R c d) :
    Related Effects.Agree Never (fun b a => R a b) d c := by
  intro f e hfe
  have hp := h e f hfe.symm
  revert hp
  generalize c.run e = first, d.run f = second
  intro hp
  cases hp with
  | values hR he' => exact .values hR he'.symm
  | faults he' => exact .faults he'.symm
  | alone hx => exact hx.elim

/-- A computation that leaves the effects as they are, and always has a value, only hands this on. -/
theorem Related.skip {P : α → Prop} {same : α → α → Prop} {R : γ → δ → Prop} {c : Run α}
    {next : α → Run γ} {d : Run δ} (hsilent : ∀ e, Related (Effects.Beside e e) Never same c c)
    (hends : Ends P Never c) (k : ∀ a, P a → Related Effects.Agree lone R (next a) d) :
    Related Effects.Agree lone R (c >>= next) d := by
  intro e f hef
  have hp := hsilent e e e ⟨.refl e, .refl e⟩
  have hP := hends e
  rw [run_bind]
  revert hp hP
  generalize c.run e = outcome
  intro hp hP
  cases hp with
  | values _ hlink => exact k _ hP _ _ (hlink.1.trans hef)
  | faults _ => exact hP.elim
  | alone hx => exact hx.elim

/-- What is known of each run by itself is known of the pair. -/
theorem Related.strengthen {P : α → Prop} {Q : β → Prop} {fault fault' : Fault → Prop} {c : Run α}
    {d : Run β} (h : Related link lone R c d) (hc : Ends P fault c) (hd : Ends Q fault' d) :
    Related link lone (fun a b => R a b ∧ P a ∧ Q b) c d := by
  intro e f he
  have hp := h e f he
  have hP := hc e
  have hQ := hd f
  revert hp hP hQ
  generalize c.run e = first, d.run f = second
  intro hp hP hQ
  cases hp with
  | values hR he' => exact .values ⟨hR, hP, hQ⟩ he'
  | faults he' => exact .faults he'
  | alone hx => exact .alone hx

/-- A run beside itself says no more than the run. -/
theorem Ends.twice {value : α → Prop} {fault lone : Fault → Prop} {c : Run α} (h : Ends value fault c) :
    Related Eq lone (fun a b => a = b ∧ value a) c c := by
  rintro e _ rfl
  have hc := h e
  revert hc
  rcases c.run e with ⟨x | a, e'⟩
  · exact fun _ => .faults rfl
  · exact fun hc => .values ⟨rfl, hc⟩ rfl

theorem Related.once {R : α → α → Prop} {c : Run α} (h : Related Eq Never R c c) :
    Ends (fun a => R a a) (fun _ => True) c := by
  intro e
  have hp := h e e rfl
  revert hp
  rcases c.run e with ⟨x | a, e'⟩
  · exact fun _ => trivial
  · intro hp
    cases hp with
    | values hR _ => exact hR

end Run

end LiveTemplate
