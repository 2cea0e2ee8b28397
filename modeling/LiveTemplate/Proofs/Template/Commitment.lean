import LiveTemplate.Proofs.Grammar.Attempt
import LiveTemplate.Proofs.Template.Reading
/-!
# Nothing is taken back

The grammar looks for alternatives, and the machine of regions cannot go back.  That the two fit
together is a property of the rules: each of them commits itself before it emits anything.  So a
rule that declines has left the stacks alone, and a rule that is done has left alone whatever
waited before it.  Here this is said of the values on the stacks, at every place that reading a
text can come to.

None of the faults of the machine can occur then.  What is left is the overflow of a day count,
which is a matter of what a function computes.
-/

set_option autoImplicit false

namespace LiveTemplate

open Value
open Grammar (Part Script Tried)
open Run (Ends)

/-! ## The values that are there -/

/-- The values of a region as operands that are given. -/
def Region.given (region : Region Value) : Region Term := ⟨region.operands.map .given, region.operators⟩

/-- The values of all regions as operands that are given. -/
def Regions.given (regions : Regions Value) : Regions Term :=
  ⟨regions.current.given, regions.outer.map Region.given⟩

section

variable {store : Store} {scope : ScopeId}

theorem Term.forall₂_given {vs ws : List Value}
    (h : List.Forall₂ (fun v term => Term.Gives store scope term v) vs (ws.map .given)) : vs = ws := by
  have heq := List.forall₂_map_right_iff.mp h
  simp only [Gives] at heq
  rwa [List.forall₂_eq_eq_eq] at heq

theorem Region.corresponds_given (region : Region Value) :
    Region.Corresponds (fun v term => Term.Gives store scope term v) region region.given where
  operands := List.forall₂_map_right_iff.mpr (List.forall₂_same.mpr fun _ _ => rfl)
  operators := rfl

theorem Regions.corresponds_given (regions : Regions Value) :
    Regions.Corresponds (fun v term => Term.Gives store scope term v) regions regions.given where
  current := Region.corresponds_given _
  outer := List.forall₂_map_right_iff.mpr (List.forall₂_same.mpr fun _ _ => Region.corresponds_given _)

theorem Region.corresponds_given_eq {region region' : Region Value}
    (h : Region.Corresponds (fun v term => Term.Gives store scope term v) region region'.given) :
    region = region' := by
  obtain ⟨operands, operators⟩ := region
  obtain ⟨hoperands, hoperators⟩ := h
  obtain rfl := Term.forall₂_given hoperands
  obtain rfl : operators = region'.operators := hoperators
  rfl

/-- What a growth of the operands says about terms it says about the values they give, and the
values that were given are the same. -/
theorem Regions.Grown.values {regions after : Regions Value} {last : Regions Term} {taken added : Nat}
    {ops : List Operator} (h : regions.given.Grown last taken added ops)
    (hlast : Regions.Corresponds (fun v term => Term.Gives store scope term v) after last) :
    regions.Grown after taken added ops := by
  obtain ⟨old, new, kept, hold, hnew, rfl, rfl⟩ := h.operands
  obtain ⟨old, kept, hvalues, rfl, rfl⟩ := List.map_eq_append_iff.mp hold
  have hoperands := hlast.current.operands
  rw [hnew] at hoperands
  refine ⟨?_, ?_, old, after.current.operands.take new.length, kept, hvalues, ?_, by simp, ?_⟩
  · have houter := hlast.outer
    rw [h.outer] at houter
    have heq : List.Forall₂ (· = ·) after.outer regions.outer :=
      (List.forall₂_map_right_iff.mp houter).imp fun _ _ => Region.corresponds_given_eq
    rwa [List.forall₂_eq_eq_eq] at heq
  · rw [hlast.current.operators, h.operators]
    rfl
  · have hkept := Term.forall₂_given (List.forall₂_drop_append _ _ _ hoperands)
    rw [← hkept, List.take_append_drop]
  · exact (List.forall₂_take_append _ _ _ hoperands).length_eq

end

theorem Grammar.Part.Ready.given {part : Part} {start : Regions Term} {regions : Regions Value}
    {Q : Value → Term → Prop} (h : part.Ready start) (hstart : Regions.Corresponds Q regions start) :
    part.Ready regions.given := by
  constructor
  · have hlength : regions.given.current.operands.length = start.current.operands.length := by
      rw [← hstart.current.operands.length_eq]
      exact List.length_map _
    rw [hlength]
    exact h.operands
  · intro op hop
    have hoperators : regions.given.current.operators = start.current.operators :=
      hstart.current.operators
    rw [hoperators] at hop
    exact h.operators op hop

namespace Template

/-- The steps may come of the script when its names are looked up in the scope. -/
def Resolved (store : Store) (scope : ScopeId) (script : Script) (steps : List (Step Value)) : Prop :=
  ∃ e e', (ofScript store scope script).run e = (.ok steps, e')

/-- The script may have led reading to these values on the stacks. -/
def Reached (store : Store) (scope : ScopeId) (script : Script) (regions : Regions Value) : Prop :=
  ∃ steps, Resolved store scope script steps ∧
    ∃ e e', (Regions.empty.run (builder store) steps).run e = (.ok regions, e')

/-- What reading a part at the beginning of a text does to the stacks.  If it declines it has done
nothing; if it is done, all is as before but for the operands that it counts and the operators that
its caller folds; and in no case does the machine meet a fault of its own. -/
def Keeps (store : Store) (scope : ScopeId) (part : Part) (depth : Nat) (left : List Char)
    (regions : Regions Value) : Prop :=
  match part.rule depth left with
  | .declined script => script = []
  | .done () _ script => (∀ op ∈ part.pending depth left, op.rank = part.rank) ∧
      ∀ steps, Resolved store scope script steps →
        Ends (fun after =>
          regions.Grown after part.taken (part.added depth left) (part.pending depth left))
          Fault.IsOverflow (regions.run (builder store) steps)
  | .failed _ _ script => ∀ steps, Resolved store scope script steps →
      Ends (fun _ => True) Fault.IsOverflow (regions.run (builder store) steps)

variable {store : Store} {scope : ScopeId}

theorem Resolved.resolves {script : Script} {steps : List (Step Value)}
    (h : Resolved store scope script steps) : Resolves store scope steps script := by
  obtain ⟨e, e', hr⟩ := h
  exact (ofScript_ends script).value hr

theorem Reached.ready {text left : List Char} {part : Part} {depth : Nat} {script : Script}
    {regions : Regions Value} (h : Reached store scope script regions)
    (ht : Tried text part depth left script) : part.Ready regions.given := by
  obtain ⟨steps, hsteps, e, e', hr⟩ := h
  obtain ⟨start, hstart, hready⟩ := ht.ready
  exact hready.given
    ((run_follows hsteps.resolves (Regions.empty_corresponds _) hstart).value hr)

/-- **Nothing is taken back.**  Whatever part of the grammar is tried in reading a text, and
whatever values are on the stacks by then, the part keeps them; and reading never ends in a fault
of the machine. -/
theorem parse_keeps (store : Store) (scope : ScopeId) (source : String) :
    (∀ part depth left script regions, Tried source.toList part depth left script →
      Reached store scope script regions → Keeps store scope part depth left regions) ∧
    Ends (fun _ => True) Fault.IsOverflow (parse store scope source) := by
  refine ⟨?_, (parse_ends store scope source).mono (fun _ _ => trivial) fun _ h => h⟩
  intro part depth left script regions htried hreached
  have hrule := part.commits depth (hreached.ready htried) left
  unfold Keeps
  cases hend : part.rule depth left with
  | done result rest emitted =>
    rw [hend] at hrule
    obtain ⟨last, ht, hgrown⟩ := hrule
    refine ⟨part.pending_rank depth left, fun steps hsteps => ?_⟩
    exact (run_follows hsteps.resolves (Regions.corresponds_given regions) ht).mono
      (fun _ hafter => hgrown.values hafter) fun _ hf => hf
  | declined emitted =>
    rw [hend] at hrule
    exact hrule
  | failed mistake rest emitted =>
    rw [hend] at hrule
    obtain ⟨last, ht⟩ := hrule
    intro steps hsteps
    exact (run_follows hsteps.resolves (Regions.corresponds_given regions) ht).mono
      (fun _ _ => trivial) fun _ hf => hf

theorem parse_keeps_around_expression :
    Tried "$\x7btrue\x7d".toList .expression 64 "true\x7d".toList [.enter] ∧
    Reached Store.empty 0 [.enter] Regions.empty.enter ∧
    Keeps Store.empty 0 .expression 64 "true\x7d".toList Regions.empty.enter := by
  have htried : Tried "$\x7btrue\x7d".toList .expression 64 "true\x7d".toList [.enter] := by
    have hbinding : (Part.segment none).alternatives = [] ++ .binding :: [.rawText none] := rfl
    exact .call (.call (.call .template (.templateSegment 0) rfl) (.alternative hbinding) rfl)
      .bindingContent rfl
  have hreached : Reached Store.empty 0 [.enter] Regions.empty.enter :=
    ⟨[.enter], ⟨Effects.initial 1, Effects.initial 1, rfl⟩, Effects.initial 1, Effects.initial 1, rfl⟩
  exact ⟨htried, hreached, (parse_keeps Store.empty 0 _).1 _ _ _ _ _ htried hreached⟩

end Template

end LiveTemplate
