import LiveTemplate.Proofs.Region.Parametric
import LiveTemplate.Proofs.Scope.Walk
/-!
# Two readings of one text

A text is read twice, in two stores or two scopes or in other effects.  The grammar emits the same
steps both times.  So the readings are related by whatever relates the values of the operands and is
kept by putting operators on them.

Of a text beside itself this says what is true of the value that is read: whatever is true of the
operands and is kept by the operators.
-/

set_option autoImplicit false

namespace LiveTemplate

open Run (Ends Related)

namespace Template

/-- What an operand may stand for. -/
inductive Denotes (store : Store) (scope : ScopeId) : Leaf → Value → Prop
  /-- Whatever is no name stands for one scalar. -/
  | scalar {operand : Leaf} {v : Value} (hname : ∀ name, operand ≠ .name name)
      (hv : v.kind.isInline = true) (h : ofLeaf store scope operand = pure v) :
      Denotes store scope operand v
  | unbound {name : String} (h : store.owned? scope name = none) :
      Denotes store scope (.name name) .null
  | constant {name : String} {owner : ScopeId} {value : Value}
      (h : store.owned? scope name = some (owner, ⟨value, .constant⟩)) :
      Denotes store scope (.name name) value
  | symbol {name : String} {owner : ScopeId} {value : Value} {kind : BindingKind} (ref : Ref)
      (h : store.owned? scope name = some (owner, ⟨value, kind⟩)) (hkind : kind ≠ .constant) :
      Denotes store scope (.name name) (.symbol ref owner name)

theorem ofLeaf_denotes (store : Store) (scope : ScopeId) (operand : Leaf) :
    Ends (Denotes store scope operand) Run.Never (ofLeaf store scope operand) := by
  cases operand with
  | name name =>
    show Ends _ _ (store.resolve scope name)
    rw [Store.resolve_eq]
    cases howned : store.owned? scope name with
    | none => exact .pure (.unbound howned)
    | some found =>
      obtain ⟨owner, value, kind⟩ := found
      cases kind with
      | constant => exact .pure (.constant howned)
      | _ => exact Ends.fresh.bind fun ref _ => .pure (.symbol ref howned nofun)
  | dimension numeral unit =>
    refine .pure (.scalar nofun ?_ rfl)
    cases (store.viewport scope).resolve (numeralValue numeral) unit <;> rfl
  | _ => exact .pure (.scalar nofun rfl rfl)

/-- Whatever operand is written, its values are related, and operators make related values of
related values. -/
structure Corresponds (link : Effects → Effects → Prop) (lone : Fault → Prop) (Q : Value → Value → Prop)
    (store store' : Store) (scope scope' : ScopeId) : Prop where
  leaf : ∀ operand, Related link lone Q (ofLeaf store scope operand) (ofLeaf store' scope' operand)
  builder : Builder.Corresponds link lone Q (builder store) (builder store')

/-- Both readings accept the text, with related values, or both reject it for the same mistake. -/
def SameReading (Q : Value → Value → Prop) (r s : Except SyntaxError Value) : Prop :=
  match r, s with
  | .ok v, .ok w => Q v w
  | .error mistake, .error mistake' => mistake = mistake'
  | _, _ => False

section

variable {link : Effects → Effects → Prop} {lone : Fault → Prop} {Q : Value → Value → Prop}
  {store store' : Store} {scope scope' : ScopeId}

/-- What an operand that is no name stands for depends on the viewport alone. -/
theorem ofLeaf_congr (hviewport : store.viewport scope = store'.viewport scope') {operand : Leaf}
    (hname : ∀ name, operand ≠ .name name) :
    ofLeaf store scope operand = ofLeaf store' scope' operand := by
  cases operand with
  | name name => exact absurd rfl (hname name)
  | dimension numeral unit => simp only [ofLeaf, hviewport]
  | _ => rfl

/-- Operands are related if names are, and if the viewports are the same. -/
theorem ofLeaf_related (hviewport : store.viewport scope = store'.viewport scope')
    (hscalar : ∀ v : Value, v.kind.isInline = true → Q v v)
    (hname : ∀ name, Related link lone Q (store.resolve scope name) (store'.resolve scope' name))
    (operand : Leaf) : Related link lone Q (ofLeaf store scope operand) (ofLeaf store' scope' operand) := by
  cases operand with
  | name name => exact hname name
  | dimension numeral unit =>
    show Related _ _ _ (pure _) (pure _)
    rw [hviewport]
    refine .pure (hscalar _ ?_)
    cases (store'.viewport scope').resolve (numeralValue numeral) unit <;> rfl
  | _ => exact .pure (hscalar _ rfl)

end

namespace Corresponds

variable {link : Effects → Effects → Prop} {lone : Fault → Prop} {Q : Value → Value → Prop}
  {store store' : Store} {scope scope' : ScopeId} (h : Corresponds link lone Q store store' scope scope')

include h

theorem ofStep (step : Step Leaf) :
    Related link lone (Step.Corresponds Q) (ofStep store scope step) (ofStep store' scope' step) := by
  cases step with
  | push operand => exact (h.leaf operand).bind fun v w hvw => .pure (.push hvw)
  | operator op => exact .pure (.operator op)
  | foldLeft rank => exact .pure (.foldLeft rank)
  | foldUnary rank => exact .pure (.foldUnary rank)
  | foldNewest rank => exact .pure (.foldNewest rank)
  | foldRight rank => exact .pure (.foldRight rank)
  | foldChoice => exact .pure .foldChoice
  | enter => exact .pure .enter
  | leave mode => exact .pure (.leave mode)

theorem ofScript (script : Grammar.Script) :
    Related link lone (List.Forall₂ (Step.Corresponds Q)) (ofScript store scope script)
      (ofScript store' scope' script) := by
  induction script with
  | nil => exact .pure .nil
  | cons step rest ih =>
    exact (h.ofStep step).bind fun _ _ hstep => ih.bind fun _ _ hrest => .pure (.cons hstep hrest)

/-- **Reading is parametric.** -/
theorem parse (source : String) :
    Related link lone (SameReading Q) (parse store scope source) (parse store' scope' source) := by
  unfold Template.parse
  generalize Grammar.read source.toList = reading
  obtain ⟨script, mistake⟩ := reading
  refine (h.ofScript script).bind fun steps steps' hsteps => ?_
  have hrun := Regions.run_related h.builder hsteps (Regions.empty_corresponds _)
  refine hrun.bind fun regions regions' hregions => ?_
  cases mistake with
  | some mistake => exact .pure rfl
  | none => exact (Regions.finish_related h.builder hregions).bind fun v w hvw => .pure hvw

theorem read (htext : ∀ s : String, Q (.text s) (.text s)) (source : String) :
    Related link lone (SameReading Q) (read store scope source) (read store' scope' source) := by
  unfold Template.read
  split
  · exact h.parse source
  · exact .pure (htext source)

/-- If evaluation makes results of another relation of related values, then evaluating the text ends
in such results. -/
theorem evaluate {R : Value → Value → Prop} (htext : ∀ s : String, Q (.text s) (.text s))
    (hsame : ∀ s : String, R (.text s) (.text s))
    (heval : ∀ v w, Q v w → Related link lone R (v.eval store) (w.eval store')) (source : String) :
    Related link lone R (evaluate store scope source) (evaluate store' scope' source) := by
  unfold Template.evaluate
  refine (h.read htext source).bind fun r s hrs => ?_
  rcases r with _ | v <;> rcases s with _ | w
  · exact .pure (hsame source)
  · exact hrs.elim
  · exact hrs.elim
  · exact heval v w hrs

end Corresponds

/-- The property is true of the values of all operands, and putting an operator on values that have it
makes values that have it. -/
structure Assures (store : Store) (scope : ScopeId) (P : Value → Prop) : Prop where
  inline : ∀ v : Value, v.kind.isInline = true → P v
  constant : ∀ {name : String} {owner : ScopeId} {value : Value},
    store.owned? scope name = some (owner, ⟨value, .constant⟩) → P value
  symbol : ∀ {name : String} {owner : ScopeId} {binding : Binding} (ref : Ref),
    store.owned? scope name = some (owner, binding) → P (.symbol ref owner name)
  build : ∀ (op : Operator) (operands : List Value), (∀ v ∈ operands, P v) →
    Ends P (fun _ => True) (op.build store operands)

namespace Assures

variable {store : Store} {scope : ScopeId} {P : Value → Prop} (h : Assures store scope P)

include h

theorem leaf (operand : Leaf) : Ends P (fun _ => True) (ofLeaf store scope operand) := by
  refine (ofLeaf_denotes store scope operand).mono (fun v hv => ?_) fun _ _ => trivial
  cases hv with
  | scalar _ hinline _ => exact h.inline v hinline
  | unbound _ => exact h.inline _ rfl
  | constant howned => exact h.constant howned
  | symbol ref howned _ => exact h.symbol ref howned

/-- The reading corresponds to itself, with values that have the property. -/
theorem corresponds :
    Corresponds Eq Run.Never (fun v w => v = w ∧ P v) store store scope scope where
  leaf operand := (h.leaf operand).twice
  builder := {
    blank := ⟨rfl, h.inline _ rfl⟩
    build := fun op vs ws hvs => by
      obtain rfl : vs = ws := by
        have heq := hvs.imp fun _ _ hvw => hvw.1
        rwa [List.forall₂_eq_eq_eq] at heq
      have hall : ∀ v ∈ vs, P v := fun v hv => (List.forall₂_same.mp hvs v hv).2
      exact (h.build op vs hall).twice }

/-- **What is read has the property.** -/
theorem read (source : String) :
    Ends (fun result => ∀ v, result = .ok v → P v) (fun _ => True) (read store scope source) := by
  have hread := h.corresponds.read (fun _ => ⟨rfl, h.inline _ rfl⟩) source
  refine hread.once.mono (fun result hresult => ?_) fun _ hx => hx
  rintro v rfl
  exact hresult.2

end Assures

end Template

end LiveTemplate
