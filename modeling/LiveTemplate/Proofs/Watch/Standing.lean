import LiveTemplate.Proofs.Template.Preserved
import LiveTemplate.Proofs.Value.Native
import LiveTemplate.Proofs.Watch.Settled
/-!
# What a template goes on standing for

A template is read once, and what it was read to is evaluated again and again.  By then a name that can be
written has become a symbol, a constant has become its value, and a name that nobody binds has become
null.  None of this is done again; so a name that is bound only later stays null in the expression.

The expression is what the template is read to in every other store, too, that agrees on the names that the
template mentions: the same are bound, by the same scopes, constants to the same values.  One such store is
always there, the present one without the names that are new.  Evaluating the expression shows what
evaluating the template shows in that store.
-/

set_option autoImplicit false

namespace LiveTemplate

open Value
open Run (Ends Related)
open Template (Owned)

/-! ## Stores that agree on names -/

namespace Store

/-- A template that mentions the names is read alike in both stores. -/
structure AgreeOn (store store' : Store) (scope : ScopeId) (names : List String) : Prop where
  cells : store.cells = store'.cells
  viewport : store.viewport scope = store'.viewport scope
  /-- The names have the same owners, and are bound as they were. -/
  owned : ∀ name ∈ names, (store.owned? scope name).map (fun found => (found.1, found.2.lasting)) =
    (store'.owned? scope name).map fun found => (found.1, found.2.lasting)

variable {store store' : Store} {scope : ScopeId} {name : String} {names : List String}

theorem AgreeOn.mono {others : List String} (h : store.AgreeOn store' scope names)
    (hsub : ∀ name ∈ others, name ∈ names) : store.AgreeOn store' scope others :=
  ⟨h.cells, h.viewport, fun name hname => h.owned name (hsub name hname)⟩

theorem AgreeOn.symm (h : store.AgreeOn store' scope names) : store'.AgreeOn store scope names :=
  ⟨h.cells.symm, h.viewport.symm, fun name hname => (h.owned name hname).symm⟩

theorem AgreeOn.resolve (h : store.AgreeOn store' scope names) (hname : name ∈ names) :
    store.resolve scope name = store'.resolve scope name := by
  have howned := h.owned name hname
  rw [resolve_eq, resolve_eq]
  cases hfirst : store.owned? scope name with
  | none =>
    rw [hfirst] at howned
    rw [owned_none_of_lasting howned]
  | some found =>
    obtain ⟨owner, value, kind⟩ := found
    rw [hfirst] at howned
    obtain ⟨⟨value', kind'⟩, hsecond, rfl, hvalue⟩ := owned_some_of_lasting howned
    rw [hsecond]
    cases kind' with
    | constant =>
      obtain rfl : value' = value := hvalue rfl
      rfl
    | user | system => rfl

end Store

/-! ## Reading again -/

section

variable {store store' : Store} {scope : ScopeId}

theorem Template.ofLeaf_agree {operand : Leaf}
    (h : store.AgreeOn store' scope (Term.leaf operand).names) :
    ofLeaf store scope operand = ofLeaf store' scope operand := by
  cases operand with
  | name name => exact h.resolve List.mem_cons_self
  | _ => exact ofLeaf_congr h.viewport nofun

/-- What reads bindings, and is free of symbols, is plain. -/
theorem Value.ReadsOnly.plain_of_free {bound : ScopeId → String → Prop} {v : Value}
    (h : ReadsOnly store bound v) (hfree : v.reachesEvaluable store = false) : Plain store v := by
  cases h with
  | plain hv => exact hv
  | symbol | node =>
    have := not_isEvaluable hfree
    cases this

theorem Operator.build_congr (hcells : store.cells = store'.cells) {bound : ScopeId → String → Prop}
    (op : Operator) {operands : List Value} (h : ∀ v ∈ operands, ReadsOnly store bound v) :
    op.build store operands = op.build store' operands := by
  have hconstant : isConstant store op operands = isConstant store' op operands := by
    simp only [isConstant, isPure_congr hcells, reachesEvaluable_congr hcells]
  unfold build
  -- the operator is applied ahead in both stores or in none, and what it is applied to is plain
  by_cases hc : isConstant store op operands = true
  · have hfree := free_of_isConstant hc
    have hfree' := free_of_isConstant (hconstant.symm.trans hc)
    rw [if_pos hc, if_pos (hconstant.symm.trans hc), apply, apply, evaluations_of_free hfree,
      evaluations_of_free hfree']
    refine applyTo_congr hcells op fun c hc => ?_
    obtain ⟨v, hv, rfl⟩ := List.mem_map.mp hc
    exact .pure (((h v hv).plain_of_free (hfree v hv)).undisturbed hcells)
  · rw [if_neg hc, if_neg fun hc' => hc (hconstant.trans hc')]

/-- What a term gives reads only what is owned as seen from the scope, and is given by every store that
agrees on the names of the term. -/
theorem Term.Written.gives_agree {term : Term} (hterm : term.Written) (horderly : store.Orderly) {v : Value}
    (hv : term.Gives store scope v) : ReadsOnly store (Owned store scope) v ∧
      (store.AgreeOn store' scope term.names → term.Gives store' scope v) := by
  refine hterm.gives_induction (P := fun term v => ReadsOnly store (Owned store scope) v ∧
    (store.AgreeOn store' scope term.names → term.Gives store' scope v)) ?_ ?_ v hv
  · rintro operand v ⟨e, e', hr⟩
    refine ⟨((Template.assures_readsOnly horderly).leaf operand).value hr, fun hagree => ⟨e, e', ?_⟩⟩
    rw [← Template.ofLeaf_agree hagree]
    exact hr
  · intro op operands vs v e e' hvs hr
    have hreads : ∀ w ∈ vs, ReadsOnly store (Owned store scope) w :=
      Operator.forall_left hvs fun _ _ h => h.1
    refine ⟨(Operator.build_readsOnly (fun _ _ => Template.plain_owned horderly) op hreads).value hr, ?_⟩
    intro hagree
    refine ⟨vs, Term.givesAll_iff.mpr (forall₂_imp_of_mem hvs fun term hmem w hw => hw.2 ?_), e, e', ?_⟩
    · exact hagree.mono fun name hname => Term.mem_namesAll.mpr ⟨term, hmem, hname⟩
    · rw [← Operator.build_congr hagree.cells op hreads]
      exact hr

theorem Term.Written.gives_readsOnly {term : Term} (hterm : term.Written) (horderly : store.Orderly)
    {v : Value} (hv : term.Gives store scope v) : ReadsOnly store (Owned store scope) v := by
  have hboth : _ ∧ (store.AgreeOn store scope term.names → term.Gives store scope v) :=
    hterm.gives_agree horderly hv
  exact hboth.1

/-- **What a term gives, it gives in every store that agrees on its names.** -/
theorem Term.Written.gives_again {term : Term} (hterm : term.Written) (horderly : store.Orderly)
    (hagree : store.AgreeOn store' scope term.names) {v : Value} (hv : term.Gives store scope v) :
    term.Gives store' scope v := (hterm.gives_agree horderly hv).2 hagree

end

/-! ## Stores that bind native values -/

/-- All that is bound is native. -/
def Store.BindsNative (store : Store) : Prop :=
  ∀ id name binding, store.ownBinding? id name = some binding → Native binding.value

section

variable {store : Store} {scope : ScopeId} (horderly : store.Orderly) (hnative : store.BindsNative)

include horderly hnative

/-- **What a term gives has native values.** -/
theorem Term.Written.gives_native {term : Term} (hterm : term.Written) {v : Value}
    (hv : term.Gives store scope v) : Ends Native Fault.IsOverflow (v.eval store) := by
  have hsettled {w : Value} (hw : Native w) : Ends Native Fault.IsOverflow (w.eval store) := by
    rw [(hw.plain store).eval]
    exact .pure hw
  refine hterm.gives_induction (P := fun _ v => Ends Native Fault.IsOverflow (v.eval store)) ?_ ?_ v hv
  · intro operand v hv
    cases Leaf.denotes hv with
    | scalar _ hinline _ => exact hsettled (.inline hinline)
    | unbound _ => exact hsettled (.inline rfl)
    | constant howned => exact hsettled (hnative _ _ _ (Store.ownBinding?_of_owned? howned))
    | @symbol name owner _ _ _ howned _ =>
      have hown := Store.ownBinding?_of_owned? howned
      refine .pure ?_
      show Native (store.seen owner name)
      rw [horderly.seen_own hown]
      exact hnative owner name _ hown
  · intro op operands vs v e e' hvs hr
    have happly : Ends Native Fault.IsOverflow (op.apply store vs) :=
      apply_closed (closed_native store) op (Operator.forall_left hvs fun _ _ h => h)
    unfold Operator.build at hr
    split at hr
    · exact hsettled (happly.value hr)
    · cases hr
      exact happly

/-- Evaluating templates makes native values. -/
theorem Template.evaluate_native (scope : ScopeId) (source : String) :
    Ends Native Fault.IsOverflow (evaluate store scope source) := by
  unfold evaluate
  rw [read_eq_parse]
  refine (parse_ends store scope source).bind fun result hresult => ?_
  cases result with
  | error mistake => exact .pure (.inline rfl)
  | ok v =>
    obtain ⟨tree, -, hgives⟩ := hresult
    exact tree.term_written.gives_native horderly hnative hgives

end

/-! ## Leaving out new names -/

namespace Store

/-- The store in which a scope binds nothing but some names. -/
def keeping (store : Store) (scope : ScopeId) (names : List String) : Store :=
  { store with scopes := store.scopes.modify scope fun found =>
      { found with bindings := found.bindings.filter fun entry => names.contains entry.1 } }

variable {store store' : Store} {scope : ScopeId} {name : String} {names : List String}

theorem scope?_keeping (id : ScopeId) : (store.keeping scope names).scope? id =
    (store.scope? id).map fun found => if scope = id then
      { found with bindings := found.bindings.filter fun entry => names.contains entry.1 } else found := by
  simp only [scope?, keeping, List.getElem?_modify]
  by_cases h : scope = id <;> simp [h]

@[simp]
theorem lineage_keeping (id : ScopeId) : (store.keeping scope names).lineage id = store.lineage id := by
  unfold lineage
  rw [scope?_keeping]
  cases store.scope? id with
  | none => rfl
  | some found => by_cases h : scope = id <;> simp [h]

@[simp]
theorem viewport_keeping (id : ScopeId) : (store.keeping scope names).viewport id = store.viewport id := by
  unfold viewport
  rw [scope?_keeping]
  cases store.scope? id with
  | none => rfl
  | some found => by_cases h : scope = id <;> simp [h]

theorem ownBinding?_keeping (id : ScopeId) (name : String) : (store.keeping scope names).ownBinding? id name =
    if scope = id ∧ name ∉ names then none else store.ownBinding? id name := by
  unfold ownBinding?
  rw [scope?_keeping]
  cases store.scope? id with
  | none => simp
  | some found =>
    have hfound := Json.lookup_filter names.contains name found.bindings
    by_cases hid : scope = id
    · rw [Option.map_some, if_pos hid]
      refine hfound.trans ?_
      by_cases hname : name ∈ names <;> simp [hid, hname]
    · simp [hid]

/-- Nothing is bound anew. -/
theorem ownBinding?_of_keeping {id : ScopeId} {binding : Binding}
    (h : (store.keeping scope names).ownBinding? id name = some binding) :
    store.ownBinding? id name = some binding := by
  rw [ownBinding?_keeping] at h
  split at h
  · cases h
  · exact h

theorem Orderly.keeping (h : store.Orderly) (scope : ScopeId) (names : List String) :
    (store.keeping scope names).Orderly := by
  have hback : ∀ {id : ScopeId} {found : Scope}, (store.keeping scope names).scope? id = some found →
      ∃ old, store.scope? id = some old ∧ found.lineage = old.lineage := by
    intro id found hfound
    rw [scope?_keeping] at hfound
    obtain ⟨old, hold, rfl⟩ := Option.map_eq_some_iff.mp hfound
    refine ⟨old, hold, ?_⟩
    split <;> rfl
  refine ⟨fun {id found} hfound => ?_, fun {id found} hfound => ?_, fun {id name binding} hown => ?_⟩
  · obtain ⟨old, hold, -⟩ := hback hfound
    exact h.held hold
  · obtain ⟨old, hold, hlineage⟩ := hback hfound
    rw [hlineage]
    exact h.first hold
  · have hcells : store.cells = (store.keeping scope names).cells := rfl
    exact (h.plain (ownBinding?_of_keeping hown)).congr hcells

theorem BindsNative.keeping (h : store.BindsNative) (scope : ScopeId) (names : List String) :
    (store.keeping scope names).BindsNative :=
  fun id name binding hown => h id name binding (ownBinding?_of_keeping hown)

/-! ### In a root -/

/-- A root owns what it binds. -/
theorem owned?_root (hroot : store.lineage scope = [scope]) (name : String) :
    store.owned? scope name = (store.ownBinding? scope name).map fun binding => (scope, binding) := by
  unfold owned?
  rw [hroot, List.findSome?_singleton]

theorem has_root (hroot : store.lineage scope = [scope]) (name : String) :
    store.has scope name = (store.ownBinding? scope name).isSome := by
  unfold has binding?
  rw [owned?_root hroot]
  cases store.ownBinding? scope name <;> rfl

theorem mem_names_root (hroot : store.lineage scope = [scope]) :
    name ∈ store.names scope ↔ store.has scope name = true := by
  rw [mem_names_iff, hroot, has_root hroot]
  simp

/-- A root in which all is kept that is bound of some names agrees on them with what it was. -/
theorem AgreeOn.ofKeeping (hroot : store.lineage scope = [scope]) {others : List String}
    (h : ∀ name ∈ others, store.has scope name = true → name ∈ names) :
    (store.keeping scope names).AgreeOn store scope others := by
  refine ⟨rfl, viewport_keeping scope, fun name hname => ?_⟩
  rw [owned?_root (by simpa using hroot), owned?_root hroot, ownBinding?_keeping]
  have hkept := h name hname
  rw [has_root hroot] at hkept
  by_cases hmem : name ∈ names
  · simp [hmem]
  · cases hown : store.ownBinding? scope name with
    | none => simp
    | some binding =>
      rw [hown] at hkept
      exact absurd (hkept rfl) hmem

/-- Two roots agree on all that is kept if the names that are kept are bound alike. -/
theorem AgreeOn.keeping (hroot : store.lineage scope = [scope]) (hroot' : store'.lineage scope = [scope])
    (hcells : store.cells = store'.cells) (hviewport : store.viewport scope = store'.viewport scope)
    (h : ∀ name ∈ names, (store.ownBinding? scope name).map Binding.lasting =
      (store'.ownBinding? scope name).map Binding.lasting) (others : List String) :
    (store.keeping scope names).AgreeOn (store'.keeping scope names) scope others := by
  refine ⟨hcells, ?_, fun name _ => ?_⟩
  · rw [viewport_keeping, viewport_keeping, hviewport]
  · rw [owned?_root (by simpa using hroot), owned?_root (by simpa using hroot'), ownBinding?_keeping,
      ownBinding?_keeping]
    by_cases hname : name ∈ names
    · have hlasting := congrArg (Option.map fun lasting => (scope, lasting)) (h name hname)
      simpa [hname, Function.comp_def] using hlasting
    · simp [hname]

end Store

/-! ## What evaluation shows -/

/-- Whenever the template is evaluated it has a value with this text. -/
def Template.Shows (store : Store) (scope : ScopeId) (source text : String) : Prop :=
  ∀ e, ∃ v e', (evaluate store scope source).run e = (.ok v, e') ∧ v.toText = text

section

variable {store store' : Store} {scope : ScopeId} {source : String} {tree : Tree} {watch : Watch}

/-- Leaving out names that an expression does not read leaves its evaluation. -/
theorem eval_keeping (horderly : store.Orderly) {names : List String} {v : Value}
    (hreads : ReadsOnly (store.keeping scope names) (Owned (store.keeping scope names) scope) v) :
    v.eval (store.keeping scope names) = v.eval store := by
  have hkept := horderly.keeping scope names
  refine hreads.eval_congr rfl (fun owner name howned => Template.plain_owned hkept howned) ?_
  rintro owner name ⟨binding, howned⟩
  have hown := Store.ownBinding?_of_owned? howned
  rw [hkept.seen_own hown, horderly.seen_own (Store.ownBinding?_of_keeping hown)]

/-- **A watch that is up to date has the text of its template**, in every store in which the template is
read to the expression of the watch and the expression is evaluated as it is now. -/
theorem Watch.IsCurrent.shows (hcurrent : watch.IsCurrent store) (hvalue : Native watch.value)
    (hnative : Ends Native Fault.IsOverflow (watch.expression.eval store))
    (hread : TreeGrammar.read source.toList = .ok tree)
    (hgives : tree.term.Gives store' scope watch.expression)
    (heval : watch.expression.eval store' = watch.expression.eval store) :
    Template.Shows store' scope source watch.value.toText := by
  intro e
  have hevaluate : Related Effects.Agree Run.Never (bareBlur store').Like
      (Template.evaluate store' scope source) (watch.expression.eval store') :=
    Template.evaluate_of_gives hread ⟨_, hgives⟩ fun v hv => (tree.term.gives_parallel hv hgives).eval
  obtain ⟨v, e', hr, -, hagrees⟩ := hcurrent e
  have hp := hevaluate e e (.refl e)
  rw [heval, hr] at hp
  have htext : v.toText = watch.value.toText := by
    rcases hagrees with hsame | halike
    · exact (hvalue.toText_of_same (hnative.value hr) hsame).symm
    · exact (Blur.Like.congr (B := shapes store) toText_outline halike).symm
  revert hp
  generalize (Template.evaluate store' scope source).run e = outcome
  intro hp
  cases hp with
  | values hlike _ => exact ⟨_, _, rfl, (hlike.congr toText_outline).trans htext⟩
  | alone hx => exact hx.elim

end

end LiveTemplate
