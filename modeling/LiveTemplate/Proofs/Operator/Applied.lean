import LiveTemplate.Proofs.Scope.Order
/-!
# What operators are applied to

All operators but the lazy ones are written for evaluated operands.  Evaluation computes each
operand once, and one step of evaluation may end in an expression: a symbol may find one that was
bound to its name, and a selection may take one out of a container.  So what can such an operator be
applied to?

To ask this, evaluation is made to list what is applied to what.  It is evaluation still: with the
list forgotten it ends in the same way.  The answer is that an operator is applied to an expression
only if evaluation was *brought* this expression from elsewhere: it is inside of what a symbol finds,
or inside of a value that is no expression itself.  Operators make no expressions.
-/

set_option autoImplicit false

namespace LiveTemplate

open Value
open Run (Ends)

/-- An operator and the evaluated operands to which it is applied. -/
structure Application where
  op : Operator
  operands : List Value

/-- A computation that lists the applications it makes, the newest first. -/
abbrev Listing := ExceptT Fault (StateM (Effects × List Application))

/-! ## Evaluation that lists what it does -/

namespace Operator

/-- Apply an operator to evaluated operands, and say so. -/
def applyListed (store : Store) (op : Operator) (operands : List Value) : Listing Value :=
  fun (effects, made) =>
    let (outcome, after) := (op.applyStrict store operands).run effects
    (outcome, (after, ⟨op, operands⟩ :: made))

/-- Run computations from left to right. -/
def runAllListing : List (Listing Value) → Listing (List Value)
  | [] => pure []
  | operand :: rest => do
    let value ← operand
    return value :: (← runAllListing rest)

/-- Apply an operator to the computations of its operands. -/
def applyListing (store : Store) : Operator → List (Listing Value) → Listing Value
  | .choose, [condition, whenTrue, whenFalse] => do
    if (← condition).truthy then whenTrue else whenFalse
  | .and, [a, b] => do
    let left ← a
    if left.truthy then b else pure left
  | .or, [a, b] => do
    let left ← a
    if left.truthy then pure left else b
  | .coalesce, [a, b] => do
    match ← a with
    | .null => b
    | left => pure left
  | op, operands =>
    if op.arity.accepts operands.length then do op.applyListed store (← runAllListing operands)
    else pure .null

end Operator

namespace Value

mutual
/-- The present value of a value. -/
def evalListing (store : Store) : Value → Listing Value
  | .node _ op operands => op.applyListing store (evaluationsListing store operands)
  | .symbol _ scope name => pure (store.seen scope name)
  | .handle ref kind label => pure (if kind.isEvaluable then .null else .handle ref kind label)
  | v => pure v

/-- The computations of the present values of all elements. -/
def evaluationsListing (store : Store) : List Value → List (Listing Value)
  | [] => []
  | v :: rest => evalListing store v :: evaluationsListing store rest
end

theorem evaluationsListing_eq_map (store : Store) (operands : List Value) :
    evaluationsListing store operands = operands.map (evalListing store) := by
  induction operands with
  | nil => rfl
  | cons v rest ih => rw [evaluationsListing, ih, List.map_cons]

end Value

/-! ## A computation and its list -/

/-- With the list forgotten the first computation is the second one, what it lists is good, and
what it ends in has a property. -/
def Lists {α : Type} (good : Application → Prop) (value : α → Prop) (c : Listing α) (d : Run α) :
    Prop :=
  ∀ e made, ∃ new, c.run (e, made) = ((d.run e).1, ((d.run e).2, new ++ made)) ∧
    (∀ x ∈ new, good x) ∧ ∀ a, (d.run e).1 = .ok a → value a

namespace Lists

variable {α β : Type} {good : Application → Prop} {value : α → Prop} {value' : β → Prop}

theorem pure {a : α} (h : value a) : Lists good value (pure a : Listing α) (pure a : Run α) := by
  refine fun e made => ⟨[], rfl, nofun, ?_⟩
  rintro b hb
  obtain rfl : a = b := Except.ok.inj hb
  exact h

theorem bind {c : Listing α} {d : Run α} {next : α → Listing β} {next' : α → Run β}
    (h : Lists good value c d) (k : ∀ a, value a → Lists good value' (next a) (next' a)) :
    Lists good value' (c >>= next) (d >>= next') := by
  intro e made
  obtain ⟨new, hrun, hnew, hvalue⟩ := h e made
  rw [Run.run_bind, Run.run_bind, hrun]
  rcases hd : d.run e with ⟨x | a, e'⟩
  · exact ⟨new, rfl, hnew, nofun⟩
  · obtain ⟨more, hmore, hgood, hvalue'⟩ := k a (hvalue a (by rw [hd])) e' (new ++ made)
    refine ⟨more ++ new, ?_, ?_, hvalue'⟩
    · rw [List.append_assoc]
      exact hmore
    · intro x hx
      rcases List.mem_append.mp hx with hx | hx
      · exact hgood x hx
      · exact hnew x hx

theorem mono {good' : Application → Prop} {value' : α → Prop} {c : Listing α} {d : Run α}
    (h : Lists good value c d) (hg : ∀ x, good x → good' x) (hv : ∀ a, value a → value' a) :
    Lists good' value' c d := by
  intro e made
  obtain ⟨new, hrun, hnew, hvalue⟩ := h e made
  exact ⟨new, hrun, fun x hx => hg x (hnew x hx), fun a ha => hv a (hvalue a ha)⟩

theorem lazily {c d : Listing α} {c' d' : Run α} {condition : Bool} (h : Lists good value c c')
    (k : Lists good value d d') :
    Lists good value (if condition then c else d) (if condition then c' else d') := by
  cases condition with
  | true => exact h
  | false => exact k

end Lists

/-- The operator takes evaluated operands, and they have a property. -/
def Application.Takes (P : Value → Prop) (x : Application) : Prop :=
  x.op.isLazy = false ∧ ∀ a ∈ x.operands, P a

section

variable {store : Store} {P : Value → Prop}

theorem applyListed_lists (hP : Value.Closed store P) {op : Operator} (hop : op.isLazy = false)
    {operands : List Value} (h : ∀ v ∈ operands, P v) :
    Lists (Application.Takes P) P (op.applyListed store operands) (op.applyStrict store operands) := by
  refine fun e made => ⟨[⟨op, operands⟩], rfl, ?_, fun a ha => ?_⟩
  · rintro x hx
    obtain rfl := List.mem_singleton.mp hx
    exact ⟨hop, h⟩
  · exact (applyStrict_closed hP op h).value (Prod.ext ha rfl)

theorem runAllListing_lists {good : Application → Prop} {cs : List (Listing Value)}
    {ds : List (Run Value)} (h : List.Forall₂ (Lists good P) cs ds) :
    Lists good (fun values => ∀ v ∈ values, P v) (Operator.runAllListing cs) (Operator.runAll ds) := by
  induction h with
  | nil => exact .pure nofun
  | cons hc _ ih =>
    refine hc.bind fun v hv => ih.bind fun values hvalues => .pure ?_
    exact List.forall_mem_cons.mpr ⟨hv, hvalues⟩

/-- **Operators and their lists.**  Applied to computations that end in values of a closed property,
an operator lists nothing but applications to such values. -/
theorem applyListing_lists (hP : Value.Closed store P) (op : Operator) {cs : List (Listing Value)}
    {ds : List (Run Value)} (h : List.Forall₂ (Lists (Application.Takes P) P) cs ds) :
    Lists (Application.Takes P) P (op.applyListing store cs) (op.applyTo store ds) := by
  have hstrict : op.isLazy = false ∨ op.arity.accepts ds.length = false →
      Lists (Application.Takes P) P
        (if op.arity.accepts cs.length then do op.applyListed store (← Operator.runAllListing cs)
          else pure .null)
        (if op.arity.accepts ds.length then do op.applyStrict store (← Operator.runAll ds)
          else pure .null) := by
    intro hop
    rw [h.length_eq]
    by_cases harity : op.arity.accepts ds.length = true
    · rw [if_pos harity, if_pos harity]
      have hop := hop.resolve_right fun hother => by rw [harity] at hother; cases hother
      exact (runAllListing_lists h).bind fun values hvalues => applyListed_lists hP hop hvalues
    · rw [if_neg harity, if_neg harity]
      exact .pure (hP.scalar _ rfl)
  cases op
  case choose =>
    rcases h with _ | ⟨hc, _ | ⟨ht, _ | ⟨hf, _ | ⟨_, _⟩⟩⟩⟩
    · exact hstrict (.inr rfl)
    · exact hstrict (.inr rfl)
    · exact hstrict (.inr rfl)
    · exact hc.bind fun _ _ => ht.lazily hf
    · exact hstrict (.inr (by simp [Operator.arity, Arity.accepts]))
  case and =>
    rcases h with _ | ⟨ha, _ | ⟨hb, _ | ⟨_, _⟩⟩⟩
    · exact hstrict (.inr rfl)
    · exact hstrict (.inr rfl)
    · exact ha.bind fun left hleft => hb.lazily (.pure hleft)
    · exact hstrict (.inr (by simp [Operator.arity, Arity.accepts]))
  case or =>
    rcases h with _ | ⟨ha, _ | ⟨hb, _ | ⟨_, _⟩⟩⟩
    · exact hstrict (.inr rfl)
    · exact hstrict (.inr rfl)
    · exact ha.bind fun left hleft => Lists.lazily (.pure hleft) hb
    · exact hstrict (.inr (by simp [Operator.arity, Arity.accepts]))
  case coalesce =>
    rcases h with _ | ⟨ha, _ | ⟨hb, _ | ⟨_, _⟩⟩⟩
    · exact hstrict (.inr rfl)
    · exact hstrict (.inr rfl)
    · refine ha.bind fun left hleft => ?_
      cases left <;> first | exact hb | exact .pure hleft
    · exact hstrict (.inr (by simp [Operator.arity, Arity.accepts]))
  all_goals exact hstrict (.inl rfl)

end

/-! ## What is brought -/

/-- Evaluation is brought a value: it is inside of a part that is no expression, or inside of what
a symbol finds. -/
inductive Value.Brings (store : Store) : Value → Value → Prop
  | within {v w : Value} : v.isEvaluable = false → Reaches store v w → Brings store v w
  | found {ref : Ref} {scope : ScopeId} {name : String} {w : Value} :
      Reaches store (store.seen scope name) w → Brings store (.symbol ref scope name) w
  | operand {ref : Ref} {op : Operator} {operands : List Value} {v w : Value} :
      v ∈ operands → Brings store v w → Brings store (.node ref op operands) w

/-- All expressions that a value reaches have a property. -/
def Value.ExpressionsIn (store : Store) (Q : Value → Prop) (v : Value) : Prop :=
  ∀ w, Reaches store v w → w.isEvaluable = true → Q w

/-- **No operator makes an expression.** -/
theorem Value.closed_expressionsIn (store : Store) (Q : Value → Prop) :
    Closed store (ExpressionsIn store Q) :=
  closed_reaching store (fun v hv h => by rw [isEvaluable_inline hv] at h; cases h)
    (fun _ _ => nofun) fun _ _ => nofun

/-- A root that binds a name to an expression, for the user to write. -/
def ledger : Store :=
  ⟨[⟨[0], [("total", ⟨.node 3 .add [.symbol 2 0 "x", .text "a"], .user⟩),
    ("x", ⟨.text "b", .user⟩)], {}, {}⟩], [0], []⟩

end LiveTemplate
