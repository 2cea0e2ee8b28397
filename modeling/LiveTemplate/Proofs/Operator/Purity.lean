import LiveTemplate.Proofs.Operator.Related
import LiveTemplate.Proofs.Scope.Order
import LiveTemplate.Proofs.Value.Content
/-!
# What purity is worth

A value is pure if no impure function is found in it.  The search goes through containers and
expressions, but not through bindings: it finds a symbol and does not ask what the symbol finds, and
the same with the map of a scope.  So a pure value may still call an impure function, one that it
*borrows* from a binding.

That is all.  If the value is pure and borrows no impure function, then evaluating it twice, at
whatever times, calls nothing impure and ends the same way: in the same fault, or in values with the
same content.  The values may differ in the references of their arrays and maps, which are made each
time.
-/

set_option autoImplicit false

namespace LiveTemplate

open Value
open Run (Ends Related)

/-- Evaluating the value may take the other one out of a binding. -/
inductive Value.Borrows (store : Store) : Value → Value → Prop
  /-- A symbol finds it. -/
  | found {ref : Ref} {scope : ScopeId} {name : String} {w : Value} :
      Reaches store (store.seen scope name) w → Borrows store (.symbol ref scope name) w
  /-- A scope binds it whose map is held. -/
  | bound {v c w : Value} {entry : String × Value} : Holds store v c → c.kind = .context →
      entry ∈ c.entries store → Reaches store entry.2 w → Borrows store v w
  | operand {ref : Ref} {op : Operator} {operands : List Value} {v w : Value} :
      v ∈ operands → Borrows store v w → Borrows store (.node ref op operands) w

section

variable {store : Store} {v : Value}

theorem Value.Borrows.trans {w x : Value} (h : Borrows store v w) (k : Reaches store w x) :
    Borrows store v x := by
  induction h with
  | found hw => exact .found (hw.trans k)
  | bound hheld hkind he hw => exact .bound hheld hkind he (hw.trans k)
  | operand hv _ ih => exact .operand hv (ih k)

/-- What is reached is held or borrowed. -/
theorem Value.Reaches.held {w : Value} (h : Reaches store v w) :
    Holds store v w ∨ Borrows store v w := by
  induction h with
  | refl => exact .inl .refl
  | item _ hx ih => exact ih.imp (·.item hx) (·.trans (Reaches.refl.item hx))
  | @entry w entry _ he ih =>
    rcases ih with hheld | hborrowed
    · by_cases hkind : w.kind = .context
      · exact .inr (.bound hheld hkind he .refl)
      · exact .inl (hheld.entry hkind he)
    · exact .inr (hborrowed.trans (Reaches.refl.entry he))

/-- The value reaches no impure function. -/
def Value.Harmless (store : Store) (v : Value) : Prop :=
  ∀ w, Reaches store v w → w.isImpureFunction = false

/-- No operator makes a function. -/
theorem closed_harmless (store : Store) : Closed store (Harmless store) :=
  closed_reaching store (fun v hv => by cases v <;> first | rfl | cases hv) (fun _ _ => rfl)
    fun _ _ => rfl

/-- The value is pure, and what it borrows is no impure function. -/
structure Value.Innocent (store : Store) (v : Value) : Prop where
  pure : v.isPure store = true
  borrows : ∀ w, Borrows store v w → w.isImpureFunction = false

theorem Value.Innocent.harmless (h : Innocent store v) : Harmless store v := by
  intro w hw
  rcases hw.held with hheld | hborrowed
  · exact isPure_iff.mp h.pure w hheld.contains
  · exact h.borrows w hborrowed

theorem Value.Innocent.operand {ref : Ref} {op : Operator} {operands : List Value}
    (h : Innocent store (.node ref op operands)) (hv : v ∈ operands) : Innocent store v where
  pure := isPure_iff.mpr fun w hw => isPure_iff.mp h.pure w ((Contains.refl.operand hv).trans hw)
  borrows w hw := h.borrows w (.operand hv hw)

/-- Evaluation leads to no impure function. -/
theorem Value.Innocent.ends (h : Innocent store v) :
    Ends (Harmless store) Fault.IsOverflow (v.eval store) := by
  induction v using nested_induction with
  | node ref op operands ih =>
    exact apply_closed (closed_harmless store) op fun v hv => ih v hv (h.operand hv)
  | atom v hatom =>
    cases v with
    | symbol ref scope name => exact .pure fun w hw => h.borrows w (.found hw)
    | handle ref kind label =>
      refine .pure ?_
      split
      · exact (closed_harmless store).scalar _ rfl
      · exact h.harmless
    | _ => first | exact .pure h.harmless | exact hatom.elim
  | array | map | filter => exact .pure h.harmless

/-- Evaluation ends the same way each time, whatever effects it starts from. -/
theorem Value.Innocent.steady {link : Effects → Effects → Prop} (hl : Effects.Loose link)
    (h : Innocent store v) : Library.Steady (bareBlur store) link (v.eval store) := by
  induction v using nested_induction with
  | node ref op operands ih =>
    refine Operator.apply_related (bareBlur store) hl op (R := fun a b =>
      (bareBlur store).Like a b ∧ Harmless store a ∧ Harmless store b) (fun a b hab => ⟨hab.1, trivial⟩)
      (.inl fun _ a b hab => hab.2.1 a .refl) (List.forall₂_same.mpr fun v hv => ?_)
    have hoperand := h.operand hv
    exact (ih v hv hoperand).strengthen hoperand.ends hoperand.ends
  | atom v hatom => cases v <;> first | exact .pure rfl | exact hatom.elim
  | array | map | filter => exact .pure rfl

end

/-- A root that binds names to a function that is pure and to one that is not, for the user to
write. -/
def workshop : Store :=
  ⟨[⟨[0], [("gather", ⟨.function 2 .gather, .user⟩), ("tick", ⟨.function 3 .counter, .user⟩)],
    {}, {}⟩], [0], []⟩

/-- A call of the other function is pure too, for what a symbol finds is not asked. -/
example :
    let source : Value := .node 6 .call [.symbol 4 0 "tick", .array 5 []]
    source.isPure workshop = true ∧
      ((source.eval workshop).run (Effects.initial 1)).2.calls = [⟨3, .counter⟩] := ⟨rfl, rfl⟩

end LiveTemplate
