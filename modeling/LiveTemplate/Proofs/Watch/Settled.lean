import LiveTemplate.Proofs.Operator.Kept
import LiveTemplate.Proofs.Syntax.Written
import LiveTemplate.Proofs.Template.Literal
import LiveTemplate.Proofs.Template.Names
import LiveTemplate.Proofs.Template.Success
import LiveTemplate.Proofs.Watch.Freshness
import LiveTemplate.Proofs.Watch.Repetition
/-!
# Results that need no watch

What a text is read to is either an expression, to be evaluated again after every write, or a value
that was computed ahead, once and for all.  Such a value is as good as watched: after any writes the
text still has the same value, because whatever can be written has become a symbol, and a symbol
makes an expression of everything that is built on it.

That holds as far as names and containers go.  A constant may also be the map that stands for a
scope, and what is selected from this map may be written, while the search for expressions does not
enter it.  So there is a condition: the maps that the mentioned constants reach have the same
entries after the writes.  It is met by every constant that reaches no scope.
-/

set_option autoImplicit false

namespace LiveTemplate

open Value
open Run (Ends)

/-! ## What writes change in a store -/

/-- What writes do not change of a binding: its kind, and the value of a constant. -/
def Binding.lasting (binding : Binding) : BindingKind × Option Value :=
  (binding.kind, if binding.kind = .constant then some binding.value else none)

namespace Store

/-- The second store differs from the first one in the values of names that can be written. -/
structure Rewritten (store store' : Store) : Prop where
  cells : store.cells = store'.cells
  lineage : ∀ id, store.lineage id = store'.lineage id
  viewport : ∀ id, store.viewport id = store'.viewport id
  bindings : ∀ id name, (store.ownBinding? id name).map Binding.lasting =
    (store'.ownBinding? id name).map Binding.lasting

variable {store store' : Store} {scope owner : ScopeId} {name : String} {binding : Binding}

theorem Rewritten.refl (store : Store) : Rewritten store store :=
  ⟨rfl, fun _ => rfl, fun _ => rfl, fun _ _ => rfl⟩

theorem Rewritten.trans {last : Store} (h : Rewritten store store') (k : Rewritten store' last) :
    Rewritten store last where
  cells := h.cells.trans k.cells
  lineage id := (h.lineage id).trans (k.lineage id)
  viewport id := (h.viewport id).trans (k.viewport id)
  bindings id name := (h.bindings id name).trans (k.bindings id name)

/-- A name that can be written is written. -/
theorem Rewritten.bind (h : store.ownBinding? owner name = some binding)
    (hkind : binding.kind ≠ .constant) (value : Value) :
    Rewritten store (store.bind owner name ⟨value, binding.kind⟩) where
  cells := rfl
  lineage id := (lineage_bind store owner name _ id).symm
  viewport id := (viewport_bind store owner name _ id).symm
  bindings id other := by
    by_cases hsame : id = owner ∧ other = name
    · obtain ⟨rfl, rfl⟩ := hsame
      obtain ⟨scope, hscope, -⟩ := scope?_of_ownBinding? h
      rw [h, ownBinding?_bind_self store id other _ hscope]
      simp [Binding.lasting, hkind]
    · rw [ownBinding?_bind_other]
      simpa only [ne_eq, ← not_and_or] using hsame

/-- A name is owned by whom it was owned by, and bound as it was. -/
theorem Rewritten.owned (h : Rewritten store store') (scope : ScopeId) (name : String) :
    (store.owned? scope name).map (fun found => (found.1, found.2.lasting)) =
      (store'.owned? scope name).map fun found => (found.1, found.2.lasting) := by
  unfold owned?
  rw [List.map_findSome?, List.map_findSome?, h.lineage]
  refine congrArg (List.findSome? · _) (funext fun ancestor => ?_)
  have hown := congrArg (Option.map fun lasting => (ancestor, lasting)) (h.bindings ancestor name)
  simpa only [Function.comp_def, Option.map_map] using hown

/-- What is bound alike is bound by the same scope, with the same kind, and to the same value if it is a
constant. -/
theorem owned_some_of_lasting {found : Option (ScopeId × Binding)}
    (h : (some (owner, binding)).map (fun found => (found.1, found.2.lasting)) =
      found.map fun found => (found.1, found.2.lasting)) :
    ∃ binding', found = some (owner, binding') ∧ binding'.kind = binding.kind ∧
      (binding.kind = .constant → binding'.value = binding.value) := by
  rw [Option.map_some, eq_comm, Option.map_eq_some_iff] at h
  obtain ⟨⟨owner', binding'⟩, hsome, heq⟩ := h
  simp only [Binding.lasting, Prod.mk.injEq] at heq
  obtain ⟨rfl, hkind, hvalue⟩ := heq
  refine ⟨binding', hsome, hkind, fun hconstant => ?_⟩
  rw [hkind, if_pos hconstant, if_pos hconstant] at hvalue
  exact Option.some.inj hvalue

theorem owned_none_of_lasting {found : Option (ScopeId × Binding)}
    (h : (none : Option (ScopeId × Binding)).map (fun found => (found.1, found.2.lasting)) =
      found.map fun found => (found.1, found.2.lasting)) : found = none := by
  rwa [Option.map_none, eq_comm, Option.map_eq_none_iff] at h

theorem Rewritten.owned_none (h : Rewritten store store') (hnone : store.owned? scope name = none) :
    store'.owned? scope name = none :=
  owned_none_of_lasting (hnone ▸ h.owned scope name)

theorem Rewritten.owned_some (h : Rewritten store store')
    (hsome : store.owned? scope name = some (owner, binding)) :
    ∃ binding', store'.owned? scope name = some (owner, binding') ∧ binding'.kind = binding.kind ∧
      (binding.kind = .constant → binding'.value = binding.value) :=
  owned_some_of_lasting (hsome ▸ h.owned scope name)

end Store

open Store (Rewritten)

/-! ## Writes -/

namespace Action

variable {world world' : World}

theorem writeIf_rewritten {mayWrite : BindingKind → Bool} (hmay : mayWrite .constant = false)
    {scope : ScopeId} {name : String} {value : Value} {result : Except Fault Bool}
    (h : (writeIf mayWrite scope name value).run world = (result, world')) :
    Rewritten world.store world'.store := by
  rcases writeIf_cases h with ⟨rfl, -, -⟩ | ⟨owner, binding, -, howned, hkind, outcome, hr, -⟩
  · exact .refl _
  · rw [show world'.store = _ from (recalculateAll_sameWatches hr).store]
    refine .bind (Store.ownBinding?_of_owned? howned) (fun hconstant => ?_) value
    rw [hconstant, hmay] at hkind
    cases hkind

end Action

namespace Move

/-- The step is a write, by the user or by the system. -/
def IsWrite : Move → Prop
  | userWrite _ _ _ => True
  | systemWrite _ _ _ => True
  | _ => False

theorem perform_rewritten {move : Move} (hwrite : move.IsWrite) {world world' : World}
    {result : Except Fault Unit} (h : move.perform.run world = (result, world')) :
    Rewritten world.store world'.store := by
  cases move with
  | userWrite scope name value =>
    obtain ⟨outcome, hrun, -⟩ := Action.run_forget h
    exact Action.writeIf_rewritten rfl hrun
  | systemWrite scope name value =>
    obtain ⟨outcome, hrun, -⟩ := Action.run_forget h
    exact Action.writeIf_rewritten rfl hrun
  | _ => exact hwrite.elim

end Move

/-- **Writes** change values of names that can be written, whatever watches they tell and whether
those have values or not. -/
theorem World.after_rewritten (world : World) {moves : List Move}
    (hwrites : ∀ move ∈ moves, move.IsWrite) : Rewritten world.store (world.after moves).store := by
  induction moves generalizing world with
  | nil => exact .refl _
  | cons move rest ih =>
    have hrest := fun other hother => hwrites other (List.mem_cons_of_mem _ hother)
    have hfirst : Rewritten world.store (move.perform.run world).2.store :=
      move.perform_rewritten (hwrites move List.mem_cons_self) rfl
    exact hfirst.trans (ih _ hrest)

/-- What is not computed by evaluation equals later what it is now. -/
theorem Value.Kept.same_after {store store' : Store} {v w : Value} (h : Kept store store' v w)
    (hcells : store.cells = store'.cells) (hv : v.isEvaluable = false) :
    v.same store' w = v.same store' v := by
  rcases h.settled with rfl | hevaluable | hfree
  · rfl
  · rw [hv] at hevaluable
    cases hevaluable
  · rw [reachesEvaluable_congr hcells] at hfree
    exact (same_alike store' (.refl v) h.alike hfree).symm

/-! ## Reading again -/

section

variable {store store' : Store} {scope : ScopeId}

/-- The constants that a scope sees under some names are undisturbed. -/
def Store.Undisturbed (store store' : Store) (scope : ScopeId) (names : List String) : Prop :=
  ∀ name ∈ names, ∀ binding, store.binding? scope name = some binding →
    binding.kind = .constant → Value.Undisturbed store store' binding.value

/-- Constants that reach no scope are undisturbed by all writes. -/
theorem Store.PlainConstants.undisturbed (h : store.PlainConstants scope)
    (hcells : store.cells = store'.cells) (names : List String) :
    store.Undisturbed store' scope names :=
  fun name _ binding hbinding hkind => (h name binding hbinding hkind).undisturbed hcells

theorem Template.ofLeaf_kept (h : Rewritten store store') (operand : Leaf) {v : Value}
    (hv : (Term.leaf operand).Gives store scope v)
    (hnames : store.Undisturbed store' scope (Term.leaf operand).names) :
    Ends (Kept store store' v) Run.Never (ofLeaf store' scope operand) := by
  cases Leaf.denotes hv with
  | scalar hname hinline hreads =>
    rw [← ofLeaf_congr (h.viewport scope) hname, hreads]
    exact .pure (.inline h.cells hinline)
  | @unbound name howned =>
    show Ends _ _ (store'.resolve scope name)
    rw [Store.resolve_eq, h.owned_none howned]
    exact .pure (.inline h.cells rfl)
  | @constant name owner _ howned =>
    obtain ⟨⟨value', kind'⟩, howned', rfl, hvalue⟩ := h.owned_some howned
    obtain rfl : value' = v := hvalue rfl
    show Ends _ _ (store'.resolve scope name)
    rw [Store.resolve_eq, howned']
    have hbinding := Store.binding?_of_owned? howned
    exact .pure (.same (hnames name List.mem_cons_self _ hbinding rfl))
  | @symbol name owner value kind ref howned hkind =>
    obtain ⟨⟨value', kind'⟩, howned', rfl, -⟩ := h.owned_some howned
    show Ends _ _ (store'.resolve scope name)
    rw [Store.resolve_eq, howned']
    cases kind' with
    | constant => exact absurd rfl hkind
    | _ => exact Ends.fresh.bind fun _ _ => .pure (.expression rfl rfl)

/-- Later the term gives values, and each of them is what the value has become. -/
structure Term.Lasts (store store' : Store) (scope : ScopeId) (term : Term) (v : Value) : Prop where
  some : term.HasValue store' scope
  each : ∀ w, term.Gives store' scope w → Kept store store' v w

theorem Term.Lasts.leaf {operand : Leaf} {v : Value}
    (h : Ends (Kept store store' v) Run.Never (Template.ofLeaf store' scope operand)) :
    Term.Lasts store store' scope (.leaf operand) v where
  some := by
    obtain ⟨w, e', hr, -⟩ := h.succeeds (Effects.initial 0)
    exact ⟨w, _, e', hr⟩
  each := by
    rintro w ⟨e, e', hr⟩
    exact h.value hr

theorem Term.Lasts.apply (hcells : store.cells = store'.cells) {op : Operator}
    {operands : List Term} {vs : List Value} {v : Value} {e e' : Effects}
    (h : List.Forall₂ (fun v term => Term.Lasts store store' scope term v) vs operands)
    (hr : (op.build store vs).run e = (.ok v, e')) :
    Term.Lasts store store' scope (.apply op operands) v where
  some := by
    have hgiven : ∃ ws, Term.GivesAll store' scope operands ws ∧
        List.Forall₂ (Kept store store') vs ws := by
      clear hr
      induction h with
      | nil => exact ⟨[], rfl, .nil⟩
      | cons hlasts _ ih =>
        obtain ⟨w, hw⟩ := hlasts.some
        obtain ⟨ws, hws, hkept⟩ := ih
        exact ⟨w :: ws, ⟨w, ws, rfl, hw, hws⟩, .cons (hlasts.each w hw) hkept⟩
    obtain ⟨ws, hws, hkept⟩ := hgiven
    obtain ⟨w, e', hs, -⟩ := ((Operator.build_kept hcells op hkept).ends hr).succeeds e
    exact ⟨w, ws, hws, e, e', hs⟩
  each := by
    rintro w ⟨ws, hws, f, f', hs⟩
    have hkept : List.Forall₂ (Kept store store') vs ws := by
      clear hr hs
      induction h generalizing ws with
      | nil =>
        obtain rfl : ws = [] := hws
        exact .nil
      | cons hlasts _ ih =>
        obtain ⟨w, rest, rfl, hw, hrest⟩ := hws
        exact .cons (hlasts.each w hw) (ih rest hrest)
    exact ((Operator.build_kept hcells op hkept).ends hr).value hs

/-- **What a term gives, it gives again**, if the constants that it names are undisturbed. -/
theorem Term.Written.lasts {term : Term} (hterm : term.Written) (h : Rewritten store store')
    {v : Value} (hv : term.Gives store scope v) (hnames : store.Undisturbed store' scope term.names) :
    Term.Lasts store store' scope term v := by
  refine hterm.gives_induction (P := fun term v => store.Undisturbed store' scope term.names →
    Term.Lasts store store' scope term v) ?_ ?_ v hv hnames
  · exact fun operand v hv hnames => .leaf (Template.ofLeaf_kept h operand hv hnames)
  · intro op operands vs v e e' hvs hr hnames
    refine .apply h.cells (forall₂_imp_of_mem hvs fun term hmem v hlasts => hlasts ?_) hr
    exact fun name hname => hnames name (Term.mem_namesAll.mpr ⟨term, hmem, hname⟩)

end

namespace Template

variable {store : Store} {scope : ScopeId} {source : String} {tree : Tree}

/-- The root with a name that the user writes and a constant. -/
def deskWorld : World := ⟨deskStore, Effects.initial 1, [], [WatchTable.empty]⟩

/-- The exception is one: a field of the map that stands for a scope is read as a value, and then
the name is written. -/
example :
    let root : Scope := ⟨[0], [("c", ⟨.context 5 0, .constant⟩), ("x", ⟨.text "a", .user⟩)], {}, {}⟩
    let world : World := ⟨⟨[root], [0], []⟩, Effects.initial 1, [], [WatchTable.empty]⟩
    let later := (world.after [.userWrite 0 "x" (.text "b")]).store
    ((parsed? world.store 0 "$\x7bc.x\x7d" (Effects.initial 1)).any fun v =>
      !v.isEvaluable && v.same later (.text "a")) = true ∧
    (((evaluate later 0 "$\x7bc.x\x7d").run (Effects.initial 1)).1.toOption.any fun w =>
      w.same later (.text "b")) = true := by decide +kernel

end Template

end LiveTemplate
