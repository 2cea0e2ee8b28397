import LiveTemplate.Proofs.Operator.Discreet
import LiveTemplate.Proofs.Operator.Folding
import LiveTemplate.Proofs.Operator.Frame
import LiveTemplate.Proofs.Scope.Order
import LiveTemplate.Proofs.Scope.Walk
import LiveTemplate.Proofs.Template.Parametric
/-!
# What an expression looks up

Reading a template leaves plain values, the symbols of names that can be written, and operators on
these.  `ReadsOnly` says this of an expression, and of its symbols that they look up nothing but
some bindings.  It is all that is needed to know what evaluation depends on:

* on the cells and on what the symbols find, and on nothing else in the store (`eval_congr`);
* on nothing in the effects, unless an impure function is called (`settles`).

The names that an expression lists are the names of its symbols, all of them and each once.
-/

set_option autoImplicit false

namespace LiveTemplate

open Value
open Run (Ends Related)

namespace Value

/-- The value is put together from plain values and from symbols of some bindings. -/
inductive ReadsOnly (store : Store) (bound : ScopeId → String → Prop) : Value → Prop
  | plain {v : Value} : Plain store v → ReadsOnly store bound v
  | symbol {ref : Ref} {scope : ScopeId} {name : String} :
      bound scope name → ReadsOnly store bound (.symbol ref scope name)
  | node {ref : Ref} {op : Operator} {operands : List Value} :
      (∀ v ∈ operands, ReadsOnly store bound v) → ReadsOnly store bound (.node ref op operands)

namespace ReadsOnly

variable {store : Store} {bound : ScopeId → String → Prop} {v : Value}

theorem mono {bound' : ScopeId → String → Prop} (h : ReadsOnly store bound v)
    (hb : ∀ scope name, bound scope name → bound' scope name) : ReadsOnly store bound' v := by
  induction h with
  | plain hv => exact .plain hv
  | symbol hbound => exact .symbol (hb _ _ hbound)
  | node _ ih => exact .node ih

theorem congr {store' : Store} (hcells : store.cells = store'.cells)
    (h : ReadsOnly store bound v) : ReadsOnly store' bound v := by
  induction h with
  | plain hv => exact .plain (hv.congr hcells)
  | symbol hbound => exact .symbol hbound
  | node _ ih => exact .node ih

/-! ## What evaluation depends on -/

/-- Evaluation finds plain values and makes plain values of them. -/
theorem eval_ends (h : ReadsOnly store bound v)
    (hplain : ∀ scope name, bound scope name → Plain store (store.seen scope name)) :
    Ends (Plain store) Fault.IsOverflow (v.eval store) := by
  induction h with
  | plain hv =>
    rw [hv.eval]
    exact .pure hv
  | symbol hbound => exact .pure (hplain _ _ hbound)
  | node _ ih => exact apply_closed (closed_plain store) _ ih

/-- **Evaluation depends on the cells and on what the symbols find.** -/
theorem eval_congr {store' : Store} (hcells : store.cells = store'.cells)
    (h : ReadsOnly store bound v)
    (hplain : ∀ scope name, bound scope name → Plain store (store.seen scope name))
    (hseen : ∀ scope name, bound scope name → store.seen scope name = store'.seen scope name) :
    v.eval store = v.eval store' := by
  induction h with
  | plain hv => rw [hv.eval, (hv.congr hcells).eval]
  | symbol hbound => exact congrArg pure (hseen _ _ hbound)
  | @node ref op operands hoperands ih =>
    have heq : evaluations store operands = evaluations store' operands := by
      rw [evaluations_eq_map, evaluations_eq_map]
      exact List.map_congr_left ih
    show op.applyTo store (evaluations store operands) = op.applyTo store' (evaluations store' operands)
    rw [← heq]
    refine Operator.applyTo_congr hcells op fun c hc => ?_
    rw [evaluations_eq_map] at hc
    obtain ⟨v, hv, rfl⟩ := List.mem_map.mp hc
    exact ((hoperands v hv).eval_ends hplain).mono (fun _ hw => hw.undisturbed hcells) fun _ hx => hx

/-- Evaluated in effects that differ in references only, an expression ends alike. -/
theorem eval_related (h : ReadsOnly store bound v)
    (hplain : ∀ scope name, bound scope name → Plain store (store.seen scope name)) :
    Related Effects.Agree Run.Never Alike (v.eval store) (v.eval store) := by
  induction h with
  | plain hv =>
    rw [hv.eval]
    exact .pure rfl
  | symbol _ => exact .pure rfl
  | @node ref op operands hoperands ih =>
    refine Operator.apply_related (shapes store) Effects.loose_agree op
      (R := fun a b => Alike a b ∧ Plain store a ∧ Plain store b)
      (fun a b hab => ⟨hab.1, hab.2.1.free⟩) (.inr Effects.exact_agree)
      (List.forall₂_same.mpr fun v hv => ?_)
    have hends := (hoperands v hv).eval_ends hplain
    exact (ih v hv).strengthen hends hends

/-- **An evaluation that calls no impure function settles the matter**: every other evaluation ends
in an alike value, or else in the same fault, and calls none either. -/
theorem settles (h : ReadsOnly store bound v)
    (hplain : ∀ scope name, bound scope name → Plain store (store.seen scope name)) {e : Effects}
    (hquiet : ((v.eval store).run e).2.calls = e.calls) (f : Effects) :
    Run.Paired (fun _ f' => f'.calls = f.calls) Run.Never
      (fun a b => Alike a b ∧ Plain store a ∧ Plain store b)
      ((v.eval store).run e) ((v.eval store).run f) := by
  have hends := h.eval_ends hplain
  exact (discreet_eval store v).settles ((h.eval_related hplain).strengthen hends hends) hquiet f

end ReadsOnly

end Value

/-! ## What reading makes -/

section

variable {store : Store}

theorem Operator.build_readsOnly {bound : ScopeId → String → Prop}
    (hplain : ∀ scope name, bound scope name → Plain store (store.seen scope name)) (op : Operator)
    {operands : List Value} (h : ∀ v ∈ operands, ReadsOnly store bound v) :
    Ends (ReadsOnly store bound) Fault.IsOverflow (op.build store operands) := by
  unfold Operator.build
  split
  · have happly : Ends (Plain store) Fault.IsOverflow (op.apply store operands) :=
      apply_closed (closed_plain store) op fun v hv => (h v hv).eval_ends hplain
    exact happly.mono (fun _ hv => .plain hv) fun _ hx => hx
  · exact Ends.fresh.bind fun _ _ => .pure (.node h)

namespace Template

/-- The scope owns the name, as seen from another scope. -/
def Owned (store : Store) (scope owner : ScopeId) (name : String) : Prop :=
  ∃ binding, store.owned? scope name = some (owner, binding)

variable {scope : ScopeId} (h : store.Orderly)

include h

theorem plain_owned {owner : ScopeId} {name : String} (howned : Owned store scope owner name) :
    Plain store (store.seen owner name) := by
  obtain ⟨binding, howned⟩ := howned
  exact h.plain_seen (Store.ownBinding?_of_owned? howned)

theorem assures_readsOnly : Assures store scope (ReadsOnly store (Owned store scope)) where
  inline _ hv := .plain (plain_inline hv)
  constant howned := .plain (h.plain (Store.ownBinding?_of_owned? howned))
  symbol _ howned := .symbol ⟨_, howned⟩
  build op _ hall :=
    (Operator.build_readsOnly (fun _ _ => plain_owned h) op hall).mono (fun _ hv => hv) fun _ _ => trivial

/-- **What reading a template makes**: an expression whose symbols stand for names where they are
owned, as seen from the scope in which the template is read. -/
theorem read_readsOnly (scope : ScopeId) (source : String) :
    Ends (fun result => ∀ v, result = .ok v → ReadsOnly store (Owned store scope) v)
      (fun _ => True) (read store scope source) := (assures_readsOnly h).read source

end Template

end

end LiveTemplate
