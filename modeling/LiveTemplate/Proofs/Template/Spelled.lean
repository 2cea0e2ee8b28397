import LiveTemplate.Proofs.Syntax.ReadBack
import LiveTemplate.Proofs.Template.Success
/-!
# Precedence and parentheses

What is written with no more parentheses than necessary means what it means with all of them.  The
two spellings are read to different trees, but the trees have one term, and a text is read to what
its term gives.  So both are read to the value of the tree that was written.

Reading succeeds unless the day count of a date overflows when a call is computed ahead.  Then it
fails for the one spelling as for the other, and the tree cannot be built either.
-/

set_option autoImplicit false

namespace LiveTemplate

open Value
open Run (Ends Related)

namespace TreeGrammar

open Grammar
open Grammar.Rule

/-- **A spelling of a tree that fits is read to the tree.** -/
theorem read_spelled {tree : Tree} {text : List Char}
    (h : Enclosed ['$', '\x7b'] ['\x7d'] tree.Spelled text) (hfits : tree.Fits)
    (hdepth : tree.depth < depthLimit) : read text = .ok (.text [.binding tree]) := by
  obtain ⟨before, middle, after, hbefore, hmiddle, hafter, rfl⟩ := h
  have hnesting : tree.nesting 1 ≤ depthLimit := Nat.le_trans (tree.nesting_bounds 1).2 hdepth
  have hbinding := binding_parses (tree_inside tree hmiddle hfits hnesting) hbefore hafter []
  -- nothing is left after the expression
  have hend : Declines (orElse (binding (expression depthLimit)) (rawText none)) [] :=
    .both (.bind (.scan rfl)) (.bind (.scan rfl))
  have hsegments : Parses template (['$', '\x7b'] ++ (before ++ (middle ++ (after ++ ['\x7d']))))
      [.binding tree] [] :=
    (Repeats.cons (Parses.orElse hbinding) (by simp) (.nil [])).collect hend
  unfold read
  rw [show template _ = _ from hsegments]

end TreeGrammar

namespace Template

variable {store : Store} {scope : ScopeId} {source source' : String} {tree tree' : Tree}

theorem parse_ends_of_read (store : Store) (scope : ScopeId)
    (hread : TreeGrammar.read source.toList = .ok tree) :
    Ends (fun result => ∃ v, result = .ok v ∧ tree.term.Gives store scope v) Fault.IsOverflow
      (parse store scope source) := by
  refine (parse_ends store scope source).mono (fun result hresult => ?_) fun _ hfault => hfault
  cases result with
  | error mistake =>
    obtain ⟨cause, rest, herror, -⟩ := hresult
    rw [hread] at herror
    cases herror
  | ok v =>
    obtain ⟨found, hfound, hgives⟩ := hresult
    obtain rfl : tree = found := Except.ok.inj (hread.symm.trans hfound)
    exact ⟨v, rfl, hgives⟩

theorem parse_overflows (hread : TreeGrammar.read source.toList = .ok tree)
    (hvalue : ¬tree.term.HasValue store scope) (e : Effects) :
    ∃ e', (parse store scope source).run e = (.error .sumOverflow, e') := by
  have hends := parse_ends_of_read store scope hread
  rcases hr : (parse store scope source).run e with ⟨x | result, e'⟩
  · obtain rfl : x = .sumOverflow := hends.fault hr
    exact ⟨e', rfl⟩
  · obtain ⟨v, -, hv⟩ := hends.value hr
    exact absurd ⟨v, hv⟩ hvalue

/-- A text is read as a tree with the same term is built: both give a value, or neither does. -/
theorem parse_as_built (store : Store) (scope : ScopeId)
    (hread : TreeGrammar.read source.toList = .ok tree') (hterm : tree'.term = tree.term) :
    Related Effects.Always Run.Never (fun result w => ∃ v, result = .ok v ∧ Alike v w)
      (parse store scope source) (tree.build store scope) := by
  intro e f _
  by_cases hvalue : tree'.term.HasValue store scope
  · obtain ⟨_, e', hr, v, rfl, hv⟩ := (parse_succeeds hread hvalue).succeeds e
    rw [hterm] at hv
    obtain ⟨w, f', hr', halike⟩ := (tree.build_anew hv).succeeds f
    rw [hr, hr']
    exact .values ⟨v, rfl, halike⟩ trivial
  · obtain ⟨e', hr⟩ := parse_overflows hread hvalue e
    rw [hterm] at hvalue
    rcases hr' : (tree.build store scope).run f with ⟨x | w, f'⟩
    · obtain rfl : x = .sumOverflow := tree.build_gives.fault hr'
      rw [hr]
      exact .faults trivial
    · exact absurd ⟨w, tree.build_gives.value hr'⟩ hvalue

/-- **Precedence and associativity say what a text means.**  Take any tree and write it as an
expression, once with the parentheses that are required and once with all that there may be, each
time with any blanks and either quotation mark, and with fewer expressions inside one another than
the limit.  Neither text is rejected.  Either both are read, to values that differ in references
only, or the day count of a date overflows in both.  What they are read to is what building the
tree from its leaves upwards gives. -/
theorem parse_spelled {sparing full : String}
    (hsparing : Enclosed ['$', '\x7b'] ['\x7d'] (tree.parenthesized false).Spelled sparing.toList)
    (hfull : Enclosed ['$', '\x7b'] ['\x7d'] (tree.parenthesized true).Spelled full.toList)
    (hdepth : (tree.parenthesized false).depth < Grammar.depthLimit)
    (hdepth' : (tree.parenthesized true).depth < Grammar.depthLimit)
    (store : Store) (scope : ScopeId) :
    Ends (fun result => ∃ v, result = .ok v) Fault.IsOverflow (parse store scope sparing) ∧
    Related Effects.Always Run.Never
      (fun result result' => ∃ v w, result = .ok v ∧ result' = .ok w ∧ Alike v w)
      (parse store scope sparing) (parse store scope full) ∧
    Related Effects.Always Run.Never (fun result w => ∃ v, result = .ok v ∧ Alike v w)
      (parse store scope sparing) (tree.build store scope) := by
  have hread := TreeGrammar.read_spelled hsparing (Tree.fits_parenthesized false tree) hdepth
  have hread' := TreeGrammar.read_spelled hfull (Tree.fits_parenthesized true tree) hdepth'
  -- parentheses make no difference to the term, nor does the text around the expression
  have hterm (all : Bool) : (Tree.text [.binding (tree.parenthesized all)]).term = tree.term :=
    tree.term_parenthesized all
  have hbuilt := parse_as_built store scope hread (hterm false)
  have hbuilt' := parse_as_built store scope hread' (hterm true)
  refine ⟨?_, ?_, hbuilt⟩
  · exact (parse_ends_of_read store scope hread).mono (fun _ ⟨v, hv, _⟩ => ⟨v, hv⟩) fun _ h => h
  · refine (hbuilt.meet hbuilt').mono ?_
    rintro _ _ ⟨u, ⟨v, rfl, hv⟩, ⟨w, rfl, hw⟩⟩
    exact ⟨v, w, rfl, rfl, hv.trans hw.symm⟩

/-- The tree of `1 - 2 - x`. -/
def differences : Tree :=
  .binary .subtract (.binary .subtract (.leaf (.number ['1'])) (.leaf (.number ['2'])))
    (.leaf (.name "x"))

theorem parse_spelled_differences :
    Ends (fun result => ∃ v, result = .ok v) Fault.IsOverflow (parse Store.empty 0 "$\x7b1-2-x\x7d") ∧
    Related Effects.Always Run.Never
      (fun result result' => ∃ v w, result = .ok v ∧ result' = .ok w ∧ Alike v w)
      (parse Store.empty 0 "$\x7b1-2-x\x7d") (parse Store.empty 0 "$\x7b((1) - (2)) - ( x )\x7d") ∧
    Related Effects.Always Run.Never (fun result w => ∃ v, result = .ok v ∧ Alike v w)
      (parse Store.empty 0 "$\x7b1-2-x\x7d") (differences.build Store.empty 0) := by
  have hone : (Tree.leaf (.number ['1'])).Spelled ['1'] :=
    ⟨.inl (.inr ⟨'1', [], rfl, by decide, by simp [IsDigits, Grammar.isDecimalDigit]⟩), rfl⟩
  have htwo : (Tree.leaf (.number ['2'])).Spelled ['2'] :=
    ⟨.inl (.inr ⟨'2', [], rfl, by decide, by simp [IsDigits, Grammar.isDecimalDigit]⟩), rfl⟩
  have hname : (Tree.leaf (.name "x")).Spelled ['x'] :=
    ⟨by decide, .inl ⟨⟨by decide, by simp⟩, by decide⟩⟩
  have hnone : IsBlanks [] := by simp [IsBlanks]
  have hblank : IsBlanks [' '] := by simp [IsBlanks, Text.isBlank]
  have hgroup {content : Tree} {text : List Char} (h : content.Spelled text) :
      (Tree.group content).Spelled ('(' :: (text ++ [')'])) :=
    ⟨[], text, [], hnone, h, hnone, rfl⟩
  have hminus {left right : Tree} {first second gap : List Char} (hgap : IsBlanks gap)
      (hleft : left.Spelled first) (hright : right.Spelled second) :
      (Tree.binary .subtract left right).Spelled (first ++ (gap ++ (['-'] ++ (gap ++ second)))) :=
    ⟨rfl, first, gap, gap, second, hleft, hgap, hgap, hright, rfl⟩
  have hsparing : Enclosed ['$', '\x7b'] ['\x7d'] (differences.parenthesized false).Spelled
      "$\x7b1-2-x\x7d".toList :=
    ⟨[], _, [], hnone, hminus hnone (hminus hnone hone htwo) hname, hnone, by decide⟩
  have hx : (Tree.group (.leaf (.name "x"))).Spelled ['(', ' ', 'x', ' ', ')'] :=
    ⟨[' '], ['x'], [' '], hblank, hname, hblank, rfl⟩
  have hfull : Enclosed ['$', '\x7b'] ['\x7d'] (differences.parenthesized true).Spelled
      "$\x7b((1) - (2)) - ( x )\x7d".toList :=
    ⟨[], _, [], hnone, hminus hblank (hgroup (hminus hblank (hgroup hone) (hgroup htwo))) hx, hnone,
      by decide⟩
  exact parse_spelled hsparing hfull (by decide) (by decide) Store.empty 0

end Template

end LiveTemplate
