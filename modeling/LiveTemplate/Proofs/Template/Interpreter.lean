import LiveTemplate.Proofs.Operator.Folding
import LiveTemplate.Proofs.Scope.Order
import LiveTemplate.Proofs.Syntax.Interpreter
import LiveTemplate.Proofs.Syntax.Written
import LiveTemplate.Proofs.Template.Parametric
import LiveTemplate.Proofs.Template.Reading
/-!
# The effects of a template

Reading a template calls no impure function, whatever is computed ahead.  Evaluating what was read
calls the impure functions that the reference interpreter calls on the syntax tree, in the same
order, and ends alike.  It does so every time anew: the statement is about any effects to start
from, and what was read holds no value of an earlier evaluation.

The scope has to bind inert values.  A node that a name is bound to is not evaluated by an operator
that finds it in a container, but it would be where an interpreter meets it.
-/

set_option autoImplicit false

namespace LiveTemplate

open Value
open Run (Ends Related)

/-! ## Reading is silent -/

namespace Template

variable {store : Store} {scope : ScopeId} {link : Effects → Effects → Prop}

theorem corresponds_steady (hl : Effects.Loose link) :
    Corresponds link Run.Never Alike store store scope scope where
  leaf := ofLeaf_steady hl
  builder := {
    blank := rfl
    build := fun op _ _ h => Operator.build_alike hl op (alikeAll_iff.mpr h) }

/-- **Reading calls no impure function**, also if it breaks off. -/
theorem parse_silent (source : String) (e : Effects) :
    ((parse store scope source).run e).2.calls = e.calls := by
  have hsteady : Corresponds _ _ _ store store scope scope :=
    corresponds_steady (Effects.loose_beside e e)
  have hp := hsteady.parse source e e ⟨.refl e, .refl e⟩
  revert hp
  generalize (parse store scope source).run e = outcome
  intro hp
  cases hp with
  | values _ hlink => exact hlink.1.calls
  | faults hlink => exact hlink.1.calls
  | alone hx => exact hx.elim

end Template

/-! ## What evaluation follows -/

/-- Evaluating the value goes like the computation, and ends in an inert value. -/
structure Value.Follows (store : Store) (v : Value) (c : Run Value) : Prop where
  eval : Related Effects.Agree Run.Never Alike (v.eval store) c
  inert : Ends (Inert store) Fault.IsOverflow (v.eval store)

section

variable {store : Store}

theorem Value.Inert.follows {v : Value} (hv : Inert store v) : Follows store v (pure v) where
  eval := by
    rw [hv.eval]
    exact .pure rfl
  inert := by
    rw [hv.eval]
    exact .pure hv

namespace Operator

variable {op : Operator} {vs : List Value} {cs : List (Run Value)}

theorem apply_follows (h : List.Forall₂ (Follows store) vs cs) :
    Related Effects.Agree Run.Never Alike (op.apply store vs) (op.applyTo store cs) := by
  have hoperands : List.Forall₂ (Related Effects.Agree Run.Never fun a b => Alike a b ∧ Inert store a)
      (evaluations store vs) cs := by
    rw [evaluations_eq_map, List.forall₂_map_left_iff]
    refine h.imp fun v c hvc => ?_
    exact (hvc.eval.strengthen hvc.inert (.any c)).mono fun a b hab => ⟨hab.1, hab.2.1⟩
  exact applyTo_related (shapes store) Effects.loose_agree op (fun a b hab => ⟨hab.1, hab.2.free⟩)
    (.inr Effects.exact_agree) hoperands

theorem apply_inert (h : List.Forall₂ (Follows store) vs cs) :
    Ends (Inert store) Fault.IsOverflow (op.apply store vs) :=
  apply_closed (closed_inert store) op (forall_left h fun _ _ hvc => hvc.inert)

/-- Evaluating what an operator makes of values goes like running it on the computations that these
follow. -/
theorem build_follows (h : List.Forall₂ (Follows store) vs cs) {v : Value} {e e' : Effects}
    (hr : (op.build store vs).run e = (.ok v, e')) : Follows store v (op.applyTo store cs) := by
  unfold build at hr
  by_cases hc : isConstant store op vs = true
  · rw [if_pos hc] at hr
    have hv : Inert store v := (apply_inert h).value hr
    obtain ⟨-, hlater⟩ := related_ahead hc (apply_follows h) hr
    refine ⟨?_, hv.follows.inert⟩
    rw [hv.eval]
    exact hlater
  · rw [if_neg hc] at hr
    cases hr
    exact ⟨apply_follows h, apply_inert h⟩

end Operator

end

namespace Store

variable {store : Store} {scope : ScopeId}

/-- The scope is held, and scopes come first in their lineages. -/
structure Seated (store : Store) (scope : ScopeId) : Prop where
  held : scope ∈ store.held
  first : ∀ {id : ScopeId} {found : Scope}, store.scope? id = some found →
    ∃ rest, found.lineage = id :: rest

/-- What is bound, as seen from the scope, is inert. -/
def InertBindings (store : Store) (scope : ScopeId) : Prop :=
  ∀ name binding, store.binding? scope name = some binding → Inert store binding.value

/-- The owner of a name lives, and finds what is seen under the name. -/
theorem Seated.seen_owned (h : store.Seated scope) {name : String} {owner : ScopeId} {binding : Binding}
    (howned : store.owned? scope name = some (owner, binding)) :
    store.seen owner name = binding.value := by
  obtain ⟨ancestor, hmem, hfound⟩ := List.exists_of_findSome?_eq_some howned
  obtain ⟨found, hown, heq⟩ := Option.map_eq_some_iff.mp hfound
  obtain ⟨rfl, rfl⟩ := Prod.mk.inj heq
  obtain ⟨own, hscope, -⟩ := scope?_of_ownBinding? hown
  obtain ⟨rest, hlineage⟩ := h.first hscope
  have hself : store.lineage ancestor = ancestor :: rest := by simp [lineage, hscope, hlineage]
  have hlive : store.isLive ancestor = true := by
    simp only [isLive, List.any_eq_true, List.contains_iff_mem]
    exact ⟨scope, h.held, hmem⟩
  have hfirst : store.owned? ancestor name = some (ancestor, found) := by simp [owned?, hself, hown]
  simp [seen, hlive, get, get?, binding?, hfirst]

end Store

section

variable {store : Store} {scope : ScopeId}

theorem Leaf.interpret_follows (hseat : store.Seated scope) (hinert : store.InertBindings scope)
    (operand : Leaf) {v : Value} (h : (Term.leaf operand).Gives store scope v) :
    Follows store v (operand.interpret store scope) := by
  cases Leaf.denotes h with
  | scalar hname hv hreads =>
    have hinterpret : operand.interpret store scope = pure v := by
      cases operand with
      | name name => exact absurd rfl (hname name)
      | _ => exact hreads
    rw [hinterpret]
    exact (plain_inline hv).inert.follows
  | @unbound name howned =>
    show Follows store .null (pure (store.get scope name))
    rw [Store.get_of_not_owned? howned]
    exact (plain_inline rfl).inert.follows
  | @constant name owner _ howned =>
    show Follows store v (pure (store.get scope name))
    rw [Store.get_of_owned? howned]
    have hvalue : Inert store v := hinert name _ (Store.binding?_of_owned? howned)
    exact hvalue.follows
  | @symbol name owner value kind ref howned =>
    show Follows store _ (pure (store.get scope name))
    rw [Store.get_of_owned? howned]
    have hvalue : Inert store value := hinert name _ (Store.binding?_of_owned? howned)
    -- the symbol finds what the scope sees
    have heval : (Value.symbol ref owner name).eval store = pure value :=
      congrArg pure (hseat.seen_owned howned)
    constructor
    · rw [heval]
      exact .pure rfl
    · rw [heval]
      exact .pure hvalue

/-- **Evaluating what a tree stands for goes like interpreting the tree.** -/
theorem Tree.interpret_follows (hseat : store.Seated scope) (hinert : store.InertBindings scope)
    (tree : Tree) {v : Value} (h : tree.term.Gives store scope v) :
    Follows store v (tree.interpret store scope) := by
  rw [← tree.interpret_term]
  refine tree.term_written.gives_induction
    (P := fun term v => Follows store v (term.interpret store scope)) ?_ ?_ v h
  · exact fun operand v hv => Leaf.interpret_follows hseat hinert operand hv
  · intro op operands vs v e e' hvs hr
    show Follows store v (op.applyTo store (Term.interpretAll store scope operands))
    rw [Term.interpretAll_eq_map]
    exact Operator.build_follows (List.forall₂_map_right_iff.mpr hvs) hr

end

/-- Two computations have ended alike: in values that differ in references only, or in the same
fault. -/
def Run.EndAlike : Except Fault Value → Except Fault Value → Prop
  | .ok v, .ok w => Alike v w
  | .error x, .error y => x = y
  | _, _ => False

namespace Template

variable {store : Store} {scope : ScopeId}

/-- A root that binds a counter, and a name for the user to write. -/
def counterStore : Store :=
  ⟨[⟨[0], [("tick", ⟨.function 2 .counter, .constant⟩), ("x", ⟨.text "", .user⟩)], {}, {}⟩], [0], []⟩

theorem seated_counter : counterStore.Seated 0 where
  held := List.mem_cons_self
  first := by
    intro id found hscope
    cases id with
    | zero =>
      obtain rfl := Option.some.inj hscope
      exact ⟨[], rfl⟩
    | succ id => cases hscope

theorem inertBindings_counter : counterStore.InertBindings 0 := by
  intro name binding hbinding
  obtain ⟨owner, howner, entry, hentry, rfl⟩ := Store.mem_of_binding? hbinding
  obtain rfl : owner = counterStore.scopes[0] := by simpa [counterStore] using howner
  have hentry : entry = ("tick", ⟨.function 2 .counter, .constant⟩) ∨
      entry = ("x", ⟨.text "", .user⟩) := by simpa [counterStore] using hentry
  rcases hentry with rfl | rfl
  · exact inert_intro rfl (fun _ h => nomatch h) fun _ h => nomatch h
  · exact (plain_inline rfl).inert

end Template

end LiveTemplate
