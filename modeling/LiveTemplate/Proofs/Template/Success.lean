import LiveTemplate.Proofs.Syntax.Lasting
import LiveTemplate.Proofs.Template.Reading
/-!
# When reading succeeds

A text without mistakes is read to a value exactly if the term of its tree gives one.  Nothing but
an overflow can keep a term from giving a value, and it keeps every text with this term from being
read, however the operators are written: what a text is read to is a matter of its term alone.

All values that a term gives are alike.
-/

set_option autoImplicit false

namespace LiveTemplate

open Value
open Run (Ends)

variable {store : Store} {scope : ScopeId}

theorem Term.relates_alike : Term.Relates store scope Alike where
  refl := .refl
  leaf := by
    rintro operand v w ⟨e, e', hr⟩ ⟨f, f', hs⟩
    exact ((ofLeaf_steady Effects.loose_always operand).ends hr).value hs
  build hall hr hs := (Operator.build_anew hr (alikeAll_iff.mpr hall)).value hs

theorem Term.givesAll_alike {terms : List Term} {vs ws : List Value}
    (hvs : Term.GivesAll store scope terms vs) (hws : Term.GivesAll store scope terms ws) :
    AlikeAll vs ws := alikeAll_iff.mpr (Term.relates_alike.givesAll terms hvs hws)

/-- The term gives some value. -/
def Term.HasValue (store : Store) (scope : ScopeId) (term : Term) : Prop :=
  ∃ v, term.Gives store scope v

open Classical in
/-- The builder of terms that refuses those without a value. -/
noncomputable def Term.refusing (store : Store) (scope : ScopeId) : Builder Term :=
  ⟨fun op operands =>
    if (Term.apply op operands).HasValue store scope then pure (.apply op operands)
    else throw .sumOverflow, .leaf (.text "")⟩

theorem Term.refusing_build {op : Operator} {operands : List Term}
    (h : (Term.apply op operands).HasValue store scope) :
    (Term.refusing store scope).build op operands = pure (.apply op operands) := if_pos h

theorem Term.refusing_refuse {op : Operator} {operands : List Term}
    (h : ¬(Term.apply op operands).HasValue store scope) :
    (Term.refusing store scope).build op operands = throw .sumOverflow := if_neg h

theorem Term.refusing_admits (store : Store) (scope : ScopeId) :
    (Term.refusing store scope).Admits (Term.HasValue store scope) where
  blank := rfl
  build := Term.refusing_build
  operands := by
    rintro op operands ⟨v, vs, hvs, -⟩ term hterm
    have hall := Term.givesAll_iff.mp hvs
    clear hvs
    induction hall with
    | nil => cases hterm
    | cons hw _ ih =>
      rcases List.mem_cons.mp hterm with rfl | hmem
      · exact ⟨_, hw⟩
      · exact ih hmem

/-- The builder of values refuses, by an overflow, where a term has no value. -/
theorem builder_refuses (store : Store) (scope : ScopeId) :
    Builder.Corresponds Effects.Always Run.Never (fun v term => term.Gives store scope v)
      (Template.builder store) (Term.refusing store scope) where
  blank := ⟨⟨0, 0, []⟩, ⟨0, 0, []⟩, rfl⟩
  build op vs terms h e f _ := by
    have hends := build_ends store op vs e
    by_cases hvalue : (Term.apply op terms).HasValue store scope
    · rw [Term.refusing_build hvalue]
      obtain ⟨v, ws, hws, f, f', hs⟩ := hvalue
      have halike := Term.givesAll_alike hws (Term.givesAll_iff.mpr h)
      have hagain := Operator.build_anew hs halike e
      show Run.Paired _ _ _ ((op.build store vs).run e) _
      rcases hr : (op.build store vs).run e with ⟨x | w, e'⟩
      · rw [hr] at hagain
        exact hagain.elim
      · exact .values ⟨vs, Term.givesAll_iff.mpr h, e, e', hr⟩ trivial
    · rw [Term.refusing_refuse hvalue]
      show Run.Paired _ _ _ ((op.build store vs).run e) _
      rcases hr : (op.build store vs).run e with ⟨x | w, e'⟩
      · rw [hr] at hends
        obtain rfl : x = .sumOverflow := hends
        exact .faults trivial
      · exact absurd ⟨w, vs, Term.givesAll_iff.mpr h, e, e', hr⟩ hvalue

namespace Template

variable {source : String} {tree : Tree}

/-- **A text whose term has a value is read**, in whatever effects, to a value of the term. -/
theorem parse_succeeds (hread : TreeGrammar.read source.toList = .ok tree)
    (hvalue : tree.term.HasValue store scope) :
    Ends (fun result => ∃ v, result = .ok v ∧ tree.term.Gives store scope v) Run.Never
      (parse store scope source) := by
  obtain ⟨last, ht, hagrees⟩ := Grammar.read_agrees source.toList
  unfold parse
  revert ht hagrees
  generalize Grammar.read source.toList = reading
  obtain ⟨script, mistake⟩ := reading
  intro ht hagrees
  cases mistake with
  | some mistake =>
    rw [hread] at hagrees
    cases hagrees
  | none =>
    obtain ⟨segments, hsegments, rfl⟩ := hagrees
    obtain rfl : tree = .text segments := Except.ok.inj (hread.symm.trans hsegments)
    -- the builder that refuses goes the whole way, since it admits the last term
    have hadmits := Term.refusing_admits store scope
    obtain ⟨hlast, hfinish⟩ := Regions.finish_back hadmits (Regions.finish_terms _) hvalue
    obtain ⟨-, hrun⟩ := Regions.run_back hadmits ht hlast
    refine (ofScript_ends script).bind fun steps hsteps => ?_
    have hfollows := Regions.run_related (builder_refuses store scope) hsteps
      (Regions.empty_corresponds _)
    rw [hrun] at hfollows
    refine hfollows.ends_of_pure.bind fun regions hregions => ?_
    have hgives := Regions.finish_related (builder_refuses store scope) hregions
    rw [hfinish] at hgives
    exact hgives.ends_of_pure.bind fun v hv => .pure ⟨v, rfl, hv⟩

end Template

end LiveTemplate
