import LiveTemplate.Expression.Template
import LiveTemplate.Proofs.Run.Related
import Mathlib.Data.Nat.PSub
/-!
# What is done in a region stays in it

The machine opens a region for a list, a group, an index or the arguments of a call, and closes it
when all of that has been read.  In between it may push, fold, and open and close other regions as
it likes; nothing of it reaches what waits around the region.  And closing adds one operand there,
which does not depend on what waits.

This is a frame rule: as long as steps do not leave a certain region, they leave those below it as
they are and do the same whatever they are.  `Step.openAfter` counts the regions on top of that one.
The rule is proved for one step, and by induction for a run.

Every step may be taken by a builder of its own and in effects of its own, so that it does not
matter what happens to a world between two steps.
-/

set_option autoImplicit false

namespace LiveTemplate

variable {α : Type}

namespace Step

/-- Is this the step into a new region? -/
def isEnter : Step α → Bool
  | .enter => true
  | _ => false

/-- Is this the step out of the current region? -/
def isLeave : Step α → Bool
  | .leave _ => true
  | _ => false

/-- A step is one into a region, one out of a region, or one inside the current region. -/
theorem kinds (s : Step α) :
    (s.isEnter = false ∧ s.isLeave = false) ∨ s = .enter ∨ ∃ mode, s = .leave mode := by
  cases s with
  | enter => exact .inr (.inl rfl)
  | leave mode => exact .inr (.inr ⟨mode, rfl⟩)
  | _ => exact .inl ⟨rfl, rfl⟩

/-- Steps that leave the regions that they enter, the last entered first, and no others. -/
inductive Nested : List (Step α) → Prop
  | nil : Nested []
  | inside {s : Step α} {rest : List (Step α)} (henter : s.isEnter = false)
      (hleave : s.isLeave = false) (hrest : Nested rest) : Nested (s :: rest)
  | region {inner rest : List (Step α)} (mode : Combine) (hinner : Nested inner)
      (hrest : Nested rest) : Nested (.enter :: (inner ++ .leave mode :: rest))

/-- How many regions are open on top of a certain one after the step, if so many were before.  There
is no answer if the step leaves that one itself. -/
def opened (count : Nat) : Step α → Option Nat
  | .enter => some (count + 1)
  | .leave _ => count.ppred
  | _ => some count

/-- The same after steps. -/
def openAfter (count : Nat) (steps : List (Step α)) : Option Nat := steps.foldlM opened count

theorem opened_inside {s : Step α} (henter : s.isEnter = false) (hleave : s.isLeave = false)
    (count : Nat) : s.opened count = some count := by
  cases s with
  | enter => cases henter
  | leave => cases hleave
  | _ => rfl

theorem openAfter_cons (count : Nat) (s : Step α) (rest : List (Step α)) :
    openAfter count (s :: rest) = (s.opened count).bind fun middle => openAfter middle rest :=
  List.foldlM_cons

theorem openAfter_append (count : Nat) (first second : List (Step α)) :
    openAfter count (first ++ second)
      = (openAfter count first).bind fun middle => openAfter middle second :=
  List.foldlM_append

/-- Nested steps leave open what was open. -/
theorem Nested.openAfter {steps : List (Step α)} (h : Nested steps) (count : Nat) :
    openAfter count steps = some count := by
  induction h generalizing count with
  | nil => rfl
  | inside henter hleave _ ih =>
    rw [openAfter_cons, opened_inside henter hleave]
    exact ih count
  | region mode _ _ ihinner ihrest =>
    have henter : (Step.enter : Step α).opened count = some (count + 1) := rfl
    have hleave : (Step.leave mode : Step α).opened (count + 1) = some count := rfl
    rw [openAfter_cons, henter, Option.bind_some, openAfter_append, ihinner, Option.bind_some,
      openAfter_cons, hleave]
    exact ihrest count

end Step

namespace Regions

/-! ## Steps in any surroundings -/

/-- The step may lead from the first state to the second.  The steps of reading fold a choice at its
own rank only; here the two markers may have any rank. -/
inductive Stepped : Regions α → Step α → Regions α → Prop
  | step (builder : Builder α) {regions after : Regions α} {s : Step α} {e e' : Effects}
      (h : (regions.step builder s).run e = (.ok after, e')) : Stepped regions s after
  | choice (builder : Builder α) (rank : Rank) {regions after : Regions α} {e e' : Effects}
      (h : (regions.inCurrent fun region => region.foldChoice builder rank).run e
        = (.ok after, e')) : Stepped regions .foldChoice after

/-- The steps, one after the other, may lead from the first state to the second. -/
inductive Ran : Regions α → List (Step α) → Regions α → Prop
  | nil (regions : Regions α) : Ran regions [] regions
  | cons {regions middle last : Regions α} {s : Step α} {rest : List (Step α)}
      (hstep : Stepped regions s middle) (hrest : Ran middle rest last) :
      Ran regions (s :: rest) last

theorem ran_of_run (builder : Builder α) {steps : List (Step α)} {regions last : Regions α}
    {e e' : Effects} (h : (regions.run builder steps).run e = (.ok last, e')) :
    regions.Ran steps last := by
  induction steps generalizing regions e with
  | nil =>
    cases h
    exact .nil _
  | cons s rest ih =>
    rw [run, Run.run_bind] at h
    rcases hstep : (regions.step builder s).run e with ⟨x | middle, e₁⟩ <;> rw [hstep] at h
    · cases h
    · exact .cons (.step builder hstep) (ih h)

theorem ran_append {first second : List (Step α)} {regions last : Regions α} :
    regions.Ran (first ++ second) last
      ↔ ∃ middle, regions.Ran first middle ∧ Ran middle second last := by
  constructor
  · intro h
    induction first generalizing regions with
    | nil => exact ⟨regions, .nil regions, h⟩
    | cons s rest ih =>
      obtain _ | ⟨hstep, hrest⟩ := h
      obtain ⟨middle, hfirst, hsecond⟩ := ih hrest
      exact ⟨middle, .cons hstep hfirst, hsecond⟩
  · rintro ⟨middle, hfirst, hsecond⟩
    induction hfirst with
    | nil => exact hsecond
    | cons hstep _ ih => exact .cons hstep (ih hsecond)

/-! ## One step -/

theorem inCurrent_frame {change : Region α → Run (Region α)} {regions after : Regions α}
    {e e' : Effects} (h : (regions.inCurrent change).run e = (.ok after, e')) :
    after.outer = regions.outer ∧ ∀ outer,
      (Regions.inCurrent ⟨regions.current, outer⟩ change).run e = (.ok ⟨after.current, outer⟩, e') := by
  unfold inCurrent at h ⊢
  rw [Run.run_bind] at h
  simp only [Run.run_bind]
  rcases hr : (change regions.current).run e with ⟨x | current, e₁⟩ <;> rw [hr] at h
  · cases h
  · cases h
    exact ⟨rfl, fun _ => rfl⟩

theorem leave_frame {builder : Builder α} {mode : Combine} {regions after : Regions α}
    {e e' : Effects} (h : (regions.leave builder mode).run e = (.ok after, e')) :
    ∃ around outer value, regions.outer = around :: outer ∧ after = ⟨around.push value, outer⟩ ∧
      ∀ around' outer', (Regions.leave builder mode ⟨regions.current, around' :: outer'⟩).run e
        = (.ok ⟨around'.push value, outer'⟩, e') := by
  obtain ⟨current, outer⟩ := regions
  rcases outer with _ | ⟨around, outer⟩
  · cases h
  · simp only [leave, Run.run_bind] at h ⊢
    rcases hr : (current.combine builder mode).run e with ⟨x | value, e₁⟩ <;> rw [hr] at h
    · cases h
    · cases h
      exact ⟨around, outer, value, rfl, rfl, fun _ _ => rfl⟩

/-- A step neither into a region nor out of one is a change of the current region. -/
theorem step_inside (builder : Builder α) {s : Step α} (henter : s.isEnter = false)
    (hleave : s.isLeave = false) :
    ∃ change, ∀ regions : Regions α, regions.step builder s = regions.inCurrent change := by
  cases s with
  | enter => cases henter
  | leave => cases hleave
  | push operand => exact ⟨fun region => pure (region.push operand), fun _ => rfl⟩
  | operator op => exact ⟨fun region => pure (region.pushOperator op), fun _ => rfl⟩
  | foldNewest rank =>
    exact ⟨fun region => do return (← region.foldNewest builder rank).1, fun _ => rfl⟩
  | _ => exact ⟨_, fun _ => rfl⟩

namespace Stepped

variable {regions after : Regions α} {s : Step α}

theorem inside (h : Stepped regions s after) (henter : s.isEnter = false)
    (hleave : s.isLeave = false) :
    after.outer = regions.outer ∧
      ∀ outer, Stepped ⟨regions.current, outer⟩ s ⟨after.current, outer⟩ := by
  cases h with
  | step builder h =>
    obtain ⟨change, hchange⟩ := step_inside builder henter hleave
    rw [hchange] at h
    obtain ⟨houter, hagain⟩ := inCurrent_frame h
    exact ⟨houter, fun outer => .step builder ((hchange _).symm ▸ hagain outer)⟩
  | choice builder rank h =>
    obtain ⟨houter, hagain⟩ := inCurrent_frame h
    exact ⟨houter, fun outer => .choice builder rank (hagain outer)⟩

theorem enter (h : Stepped regions .enter after) :
    after = regions.enter ∧ ∀ other : Regions α, Stepped other .enter other.enter := by
  cases h with
  | @step builder _ _ _ e _ h =>
    cases h
    exact ⟨rfl, fun other => .step builder (Run.run_pure other.enter e)⟩

theorem leave {mode : Combine} (h : Stepped regions (.leave mode) after) :
    ∃ around outer value, regions.outer = around :: outer ∧ after = ⟨around.push value, outer⟩ ∧
      ∀ around' outer',
        Stepped ⟨regions.current, around' :: outer'⟩ (.leave mode) ⟨around'.push value, outer'⟩ := by
  cases h with
  | step builder h =>
    obtain ⟨around, outer, value, houter, rfl, hagain⟩ := leave_frame h
    exact ⟨around, outer, value, houter, rfl, fun around' outer' =>
      .step builder (hagain around' outer')⟩

/-- A step that does not leave a certain region leaves those below it as they are, and does the same
whatever they are. -/
theorem frame (h : Stepped regions s after) {top below : List (Region α)} {count : Nat}
    (houter : regions.outer = top ++ below) (hcount : s.opened top.length = some count) :
    ∃ top', top'.length = count ∧ after.outer = top' ++ below ∧
      ∀ below', Stepped ⟨regions.current, top ++ below'⟩ s ⟨after.current, top' ++ below'⟩ := by
  rcases s.kinds with ⟨henter, hleave⟩ | rfl | ⟨mode, rfl⟩
  · obtain ⟨hsame, hagain⟩ := h.inside henter hleave
    rw [Step.opened_inside henter hleave] at hcount
    exact ⟨top, Option.some.inj hcount, hsame.trans houter, fun _ => hagain _⟩
  · obtain ⟨rfl, hagain⟩ := h.enter
    exact ⟨regions.current :: top, Option.some.inj hcount, congrArg (regions.current :: ·) houter,
      fun _ => hagain _⟩
  · obtain ⟨around, outer, value, hleft, rfl, hagain⟩ := h.leave
    rw [hleft] at houter
    rcases top with _ | ⟨first, top⟩
    · cases hcount
    · obtain ⟨rfl, rfl⟩ := List.cons.inj houter
      exact ⟨top, Option.some.inj hcount, rfl, fun _ => hagain _ _⟩

/-- The number of open regions goes up with a step into one and down with a step out of one. -/
theorem depth (h : Stepped regions s after) :
    after.depth + [s].countP Step.isLeave = regions.depth + [s].countP Step.isEnter := by
  rcases s.kinds with ⟨henter, hleave⟩ | rfl | ⟨mode, rfl⟩
  · simp [Regions.depth, henter, hleave, (h.inside henter hleave).1]
  · obtain ⟨rfl, -⟩ := h.enter
    rfl
  · obtain ⟨around, outer, value, houter, rfl, -⟩ := h.leave
    simp [Regions.depth, houter, Step.isEnter, Step.isLeave]

end Stepped

/-! ## Runs -/

namespace Ran

variable {regions last : Regions α} {steps : List (Step α)}

/-- **Frame rule.**  Steps that do not leave a certain region leave those below it as they are, and
do the same whatever they are. -/
theorem frame (h : regions.Ran steps last) {top below : List (Region α)} {count : Nat}
    (houter : regions.outer = top ++ below) (hcount : Step.openAfter top.length steps = some count) :
    ∃ top', top'.length = count ∧ last.outer = top' ++ below ∧
      ∀ below', Ran ⟨regions.current, top ++ below'⟩ steps ⟨last.current, top' ++ below'⟩ := by
  -- what is on top changes from step to step, what is below does not
  induction h generalizing top with
  | nil regions => exact ⟨top, Option.some.inj hcount, houter, fun _ => .nil _⟩
  | cons hstep _ ih =>
    rw [Step.openAfter_cons] at hcount
    obtain ⟨between, hfirst, hrest⟩ := Option.bind_eq_some_iff.mp hcount
    obtain ⟨middle, rfl, hmiddle, hagain⟩ := hstep.frame houter hfirst
    obtain ⟨top', hlength, hlast, hagain'⟩ := ih hmiddle hrest
    exact ⟨top', hlength, hlast, fun below' => .cons (hagain below') (hagain' below')⟩

theorem depth (h : regions.Ran steps last) :
    last.depth + steps.countP Step.isLeave = regions.depth + steps.countP Step.isEnter := by
  induction h with
  | nil => rfl
  | @cons regions middle last s rest hstep _ ih =>
    have hs := hstep.depth
    rw [← List.singleton_append, List.countP_append, List.countP_append]
    omega

end Ran

/-- **Regions isolate.**  Until a region that is entered is left again, whatever nested steps are
taken in it, all regions below keep their operands and operators; leaving it gives the region
around it one operand more, the same as anywhere else, and changes nothing besides.  And no steps
from any state leave the outermost region. -/
theorem nested_isolated {inner : List (Step α)} (hinner : Step.Nested inner)
    (regions : Regions α) :
    (∀ first middle, first <+: inner → regions.Ran (.enter :: first) middle →
      regions.current :: regions.outer <:+ middle.outer) ∧
    (∀ mode closed, regions.Ran (.enter :: inner ++ [.leave mode]) closed →
      ∃ value, closed = ⟨regions.current.push value, regions.outer⟩ ∧
        ∀ other : Regions α, other.Ran (.enter :: inner ++ [.leave mode])
          ⟨other.current.push value, other.outer⟩) ∧
    ∀ steps last, regions.Ran steps last →
      1 ≤ last.depth ∧
      last.depth + steps.countP Step.isLeave = regions.depth + steps.countP Step.isEnter := by
  refine ⟨?_, ?_, fun steps last h => ⟨Nat.le_add_left 1 _, h.depth⟩⟩
  · rintro first middle ⟨more, rfl⟩ (_ | ⟨henter, hfirst⟩)
    obtain ⟨rfl, -⟩ := henter.enter
    have hcount := hinner.openAfter 0
    rw [Step.openAfter_append] at hcount
    obtain ⟨count, hcount, -⟩ := Option.bind_eq_some_iff.mp hcount
    obtain ⟨top, -, houter, -⟩ := hfirst.frame (List.nil_append _).symm hcount
    exact ⟨top, houter.symm⟩
  · intro mode closed h
    obtain ⟨last, hlast, hleave⟩ := ran_append.mp h
    obtain _ | ⟨henter, hinside⟩ := hlast
    obtain ⟨rfl, henters⟩ := henter.enter
    obtain _ | ⟨hleave, _ | _⟩ := hleave
    -- the region around is the one that was current before
    obtain ⟨top, htop, houter, hagain⟩ := hinside.frame (List.nil_append _).symm (hinner.openAfter 0)
    obtain rfl := List.length_eq_zero_iff.mp htop
    obtain ⟨around, outer, value, hleft, rfl, hleaves⟩ := hleave.leave
    obtain ⟨rfl, rfl⟩ := List.cons.inj (hleft.symm.trans houter)
    refine ⟨value, rfl, fun other => ?_⟩
    exact ran_append.mpr ⟨_, .cons (henters other) (hagain _), .cons (hleaves _ _) (.nil _)⟩

/-- A text and, in a group after it, a conjunction that waits for its right side. -/
def waiting : Regions Value := ⟨⟨[.bool true], [.and]⟩, [⟨[.text "sum: "], []⟩]⟩

/-- The steps of `false || [null]`. -/
def disjunction : List (Step Value) :=
  [.push (.bool false), .operator .or, .enter, .push .null, .leave .list, .foldLeft .disjunction]

theorem nested_isolated_disjunction :
    Step.Nested disjunction ∧
    (∃ middle, disjunction.take 3 <+: disjunction ∧
      waiting.Ran (.enter :: disjunction.take 3) middle ∧
      waiting.current :: waiting.outer <:+ middle.outer) ∧
    (∃ closed, waiting.Ran (.enter :: disjunction ++ [.leave .single]) closed ∧
      1 ≤ closed.depth ∧ ∃ value, closed = ⟨waiting.current.push value, waiting.outer⟩ ∧
        ∀ other : Regions Value, other.Ran (.enter :: disjunction ++ [.leave .single])
          ⟨other.current.push value, other.outer⟩) := by
  have hnested : Step.Nested disjunction :=
    .inside rfl rfl (.inside rfl rfl (.region .list (.inside rfl rfl .nil) (.inside rfl rfl .nil)))
  have hentered : waiting.Ran (.enter :: disjunction.take 3)
      ⟨.empty, ⟨[.bool false], [.or]⟩ :: waiting.current :: waiting.outer⟩ :=
    ran_of_run (Template.builder Store.empty) (e := .initial 1) rfl
  have hclosed : waiting.Ran (.enter :: disjunction ++ [.leave .single])
      ⟨waiting.current.push (.array Value.firstFreeRef [.null]), waiting.outer⟩ :=
    ran_of_run (Template.builder Store.empty) (e := .initial 1) rfl
  obtain ⟨hbelow, hadds, hdepth⟩ := nested_isolated hnested waiting
  have hprefix : disjunction.take 3 <+: disjunction := List.take_prefix 3 _
  exact ⟨hnested, ⟨_, hprefix, hentered, hbelow _ _ hprefix hentered⟩,
    ⟨_, hclosed, (hdepth _ _ hclosed).1, hadds .single _ hclosed⟩⟩

end Regions

end LiveTemplate
