import LiveTemplate.Proofs.Operator.Overflow
import LiveTemplate.Proofs.Template.Folding
import LiveTemplate.Proofs.Template.Literal
import LiveTemplate.Proofs.Template.Success
import LiveTemplate.Value.Serialization
/-!
# What a template can break off with

Whatever text is evaluated, in whatever scope, this comes to an end with a value, which has a document
and a text; or a day count has overflowed.  That can happen at two times.  While the text is read, a call
with constant operands is made ahead, wherever it stands; so the text alone decides.  And when the value
that was read is evaluated, the calls are made that evaluation comes to.
-/

set_option autoImplicit false

namespace LiveTemplate

open Value
open Run (Ends Breaks)

variable {store : Store} {scope : ScopeId}

mutual
/-- A part of the term is a call with constant operands that breaks off. -/
def Term.TooLate (store : Store) (scope : ScopeId) : Term → Prop
  | .leaf _ => False
  | .given _ => False
  | .apply op operands => Term.AnyTooLate store scope operands ∨
      ∃ vs, Term.GivesAll store scope operands vs ∧ op.isConstant store vs = true ∧
        Application.TooLate store ⟨op, vs⟩

/-- One of the terms has such a part. -/
def Term.AnyTooLate (store : Store) (scope : ScopeId) : List Term → Prop
  | [] => False
  | term :: rest => Term.TooLate store scope term ∨ Term.AnyTooLate store scope rest
end

mutual
/-- **Nothing else keeps a term from giving a value.** -/
theorem Term.hasValue_iff (term : Term) : term.HasValue store scope ↔ ¬term.TooLate store scope := by
  match term with
  | .leaf operand =>
    have hends : Ends (fun v => Term.Gives store scope (.leaf operand) v) Run.Never _ := ofLeaf_ends operand
    obtain ⟨v, -, -, hv⟩ := hends.succeeds ⟨0, 0, []⟩
    exact iff_of_true ⟨v, hv⟩ id
  | .given w => exact iff_of_true ⟨w, rfl⟩ id
  | .apply op operands =>
    have hoperands := Term.anyTooLate_iff operands
    constructor
    · rintro ⟨v, vs, hvs, e, e', hr⟩ (hany | ⟨ws, hws, hlate⟩)
      · exact hoperands.mp ⟨vs, hvs⟩ hany
      · -- whatever the operands give, they can be put together where they once were
        have hagain := Operator.build_anew hr (Term.givesAll_alike hvs hws)
        obtain ⟨x, hx⟩ := ((Operator.build_breaks op ws).iff e).mpr hlate
        obtain ⟨w, f', hw, -⟩ := hagain.succeeds e
        rw [hw] at hx
        cases hx
    · intro h
      obtain ⟨vs, hvs⟩ := hoperands.mpr fun hany => h (.inl hany)
      rcases hr : (op.build store vs).run ⟨0, 0, []⟩ with ⟨x | v, e'⟩
      · have hlate := ((Operator.build_breaks op vs).iff ⟨0, 0, []⟩).mp ⟨x, by rw [hr]⟩
        exact absurd (.inr ⟨vs, hvs, hlate⟩) h
      · exact ⟨v, vs, hvs, _, _, hr⟩

theorem Term.anyTooLate_iff (terms : List Term) :
    (∃ vs, Term.GivesAll store scope terms vs) ↔ ¬Term.AnyTooLate store scope terms := by
  match terms with
  | [] => exact iff_of_true ⟨[], rfl⟩ id
  | term :: rest =>
    have hterm := Term.hasValue_iff term
    have hrest := Term.anyTooLate_iff rest
    constructor
    · rintro ⟨_, v, vs, rfl, hv, hvs⟩ (hfirst | hothers)
      · exact hterm.mp ⟨v, hv⟩ hfirst
      · exact hrest.mp ⟨vs, hvs⟩ hothers
    · intro h
      obtain ⟨v, hv⟩ := hterm.mpr fun hfirst => h (.inl hfirst)
      obtain ⟨vs, hvs⟩ := hrest.mpr fun hothers => h (.inr hothers)
      exact ⟨v :: vs, v, vs, rfl, hv, hvs⟩
end

namespace Template

variable {source : String} {tree : Tree}

/-- **Reading breaks off exactly if a part of the text does**, whatever the effects. -/
theorem parse_breaks (hread : TreeGrammar.read source.toList = .ok tree) :
    Breaks (tree.term.TooLate store scope) (parse store scope source) := by
  by_cases hvalue : tree.term.HasValue store scope
  · refine .never ((Term.hasValue_iff _).mp hvalue) ?_
    exact (parse_succeeds hread hvalue).mono (fun _ _ => trivial) fun _ hx => hx
  · have hlate : tree.term.TooLate store scope := by
      by_contra hno
      exact hvalue ((Term.hasValue_iff _).mpr hno)
    refine (parse_ends store scope source).mono (fun result hresult => ?_) fun _ _ => hlate
    cases result with
    | ok v =>
      obtain ⟨tree', hread', hgives⟩ := hresult
      obtain rfl : tree' = tree := Except.ok.inj (hread'.symm.trans hread)
      exact absurd ⟨v, hgives⟩ hvalue
    | error mistake =>
      obtain ⟨cause, rest, hcause, -⟩ := hresult
      rw [hread] at hcause
      cases hcause

/-- The applications that evaluation makes once a text has been read. -/
def applications (store : Store) (scope : ScopeId) (source : String) (e : Effects) : List Application :=
  match (parse store scope source).run e with
  | (.ok (.ok v), e') => ((v.evalListing store).run (e', [])).2.2
  | _ => []

/-- **Evaluating a text breaks off exactly if a part of the text does, or if an operator is applied that
does.** -/
theorem evaluate_breaks (hread : TreeGrammar.read source.toList = .ok tree) (e : Effects) :
    (∃ x, ((evaluate store scope source).run e).1 = .error x) ↔
      tree.term.TooLate store scope ∨ ∃ x ∈ applications store scope source e, x.TooLate store := by
  have hparse : (∃ x, ((parse store scope source).run e).1 = .error x) ↔ tree.term.TooLate store scope :=
    (parse_breaks hread).iff e
  have hends := parse_ends store scope source
  unfold evaluate applications
  rw [read_eq_parse, Run.run_bind]
  rcases hr : (parse store scope source).run e with ⟨x | mistake | v, e'⟩
  · rw [hr] at hparse
    exact iff_of_true ⟨x, rfl⟩ (.inl (hparse.mp ⟨x, rfl⟩))
  · obtain ⟨cause, rest, hcause, -⟩ := hends.value hr
    rw [hread] at hcause
    cases hcause
  · have hno : ¬tree.term.TooLate store scope := fun hlate => by
      rw [hr] at hparse
      obtain ⟨x, hx⟩ := hparse.mpr hlate
      cases hx
    obtain ⟨new, hrun, hnew⟩ := @eval_tells store v e' []
    simp only [hrun, List.append_nil, hno, false_or]
    exact hnew

/-- **No text breaks off but by a day count that overflows.**  Whatever text is evaluated in whatever
scope, it comes to a value, which has a document and a text, or a day count has overflowed.  For a text
that is accepted this is a matter of the calls that it makes: either a call among its parts, with operands
that are constant, is given a time that is too late, or one is that evaluation comes to.  Everything else
that the library computes with integers stays in its words. -/
theorem evaluate_completes (store : Store) (scope : ScopeId) (source : String) :
    Ends (fun _ => True) Fault.IsOverflow (do
      let v ← evaluate store scope source
      return (v.serialize store, v.toText)) ∧
    (∀ tree, TreeGrammar.read source.toList = .ok tree → ∀ e,
      (∃ x, ((evaluate store scope source).run e).1 = .error x) ↔
        tree.term.TooLate store scope ∨ ∃ x ∈ applications store scope source e, x.TooLate store) ∧
    Library.KeepsWords store :=
  ⟨(evaluate_ends store scope source).bind fun _ _ => .pure trivial,
    fun _ hread e => evaluate_breaks hread e, Library.keepsWords store⟩

/-- The call is not asked for, but it is constant, and so it is made while the text is read. -/
theorem evaluate_completes_of_clock :
    ∃ tree, TreeGrammar.read "$\x7btrue || year('1000000000000000000000000000')\x7d".toList = .ok tree ∧
      (∃ x, ((evaluate clock 0 "$\x7btrue || year('1000000000000000000000000000')\x7d").run
        (Effects.initial 1)).1 = .error x) ∧
      (tree.term.TooLate clock 0 ∨ ∃ x ∈ applications clock 0
        "$\x7btrue || year('1000000000000000000000000000')\x7d" (Effects.initial 1), x.TooLate clock) := by
  have hfault : (match ((evaluate clock 0 "$\x7btrue || year('1000000000000000000000000000')\x7d").run
      (Effects.initial 1)).1 with
    | .error _ => true
    | .ok _ => false) = true := by decide +kernel
  have hread : (match TreeGrammar.read
      "$\x7btrue || year('1000000000000000000000000000')\x7d".toList with
    | .ok _ => true
    | .error _ => false) = true := by decide +kernel
  obtain ⟨-, hbreaks, -⟩ := evaluate_completes clock 0
    "$\x7btrue || year('1000000000000000000000000000')\x7d"
  revert hfault hread
  generalize "$\x7btrue || year('1000000000000000000000000000')\x7d" = source at *
  intro hfault hread
  split at hfault
  · next x hx =>
    split at hread
    · next tree htree => exact ⟨tree, htree, ⟨x, hx⟩, (hbreaks tree htree _).mp ⟨x, hx⟩⟩
    · cases hread
  · cases hfault

end Template

end LiveTemplate
