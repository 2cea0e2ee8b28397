import LiveTemplate.Proofs.Operator.Applied
import LiveTemplate.Proofs.Operator.Build
import LiveTemplate.Proofs.Library.Words
/-!
# What overflows

Evaluation can break off in one way only: a function of the library is asked for a part of the date at a
time that is too late to have one.  Which calls these are is seen from the function and its arguments.

So it is also seen from what operators are applied to.  Putting an operator on constant operands breaks
off exactly if the two of them make such a call, and evaluating a value breaks off exactly if such a call
is among the applications that it makes.
-/

set_option autoImplicit false

namespace LiveTemplate

open Value
open Run (Ends)

namespace Run

variable {α : Type} {c : Run α} {P Q : Prop}

/-- The computation breaks off exactly if something is the case. -/
def Breaks (P : Prop) (c : Run α) : Prop := Ends (fun _ => ¬P) (fun _ => P) c

theorem Breaks.pure {a : α} (h : ¬P) : Breaks P (pure a : Run α) := Ends.pure h

/-- What has only values does not break off. -/
theorem Breaks.never (hP : ¬P) (h : Ends (fun _ => True) Never c) : Breaks P c :=
  h.mono (fun _ _ => hP) fun _ hx => hx.elim

theorem Breaks.congr (h : Breaks P c) (hPQ : P ↔ Q) : Breaks Q c := by
  rwa [← propext hPQ]

theorem Breaks.iff (h : Breaks P c) (e : Effects) : (∃ x, (c.run e).1 = .error x) ↔ P := by
  have hc := h e
  rcases hr : c.run e with ⟨x | a, e'⟩ <;> rw [hr] at hc
  · exact iff_of_true ⟨x, rfl⟩ hc
  · exact iff_of_false (by rintro ⟨x, h⟩; cases h) hc

end Run

open Run (Breaks)

variable {store : Store}

/-! ## Calls -/

namespace Library

/-- The call asks for a part of the date at a time that is too late to have one. -/
def TooLate (builtin : Builtin) (args : List Value) : Prop :=
  ∃ field t, builtin = .time field ∧ args = [t] ∧ Calendar.read t.toNumber = .tooLate

theorem timeField_breaks (field : TimeField) (t : Value) :
    Breaks (TooLate (.time field) [t]) (Run.ofExcept (timeField field t.toNumber)) := by
  have hlate : Calendar.read t.toNumber = .tooLate ↔ TooLate (.time field) [t] := by
    constructor
    · exact fun h => ⟨field, t, rfl, rfl, h⟩
    · rintro ⟨_, _, -, hargs, h⟩
      cases hargs
      exact h
  refine Breaks.congr ?_ hlate
  unfold timeField
  split
  · next h => exact .pure (by simp [h])
  · next h => exact Ends.throw h
  · next h => exact .pure (by simp [h])

theorem array_never (items : List Value) : Ends (fun _ => True) Run.Never (Run.array items) :=
  Ends.fresh.bind fun _ _ => .pure trivial

theorem rangeArray_never (start stop step : Float) :
    Ends (fun _ => True) Run.Never (rangeArray start stop step) := by
  unfold rangeArray
  split
  · exact .pure trivial
  · exact array_never _

theorem call_never (ref : Ref) {builtin : Builtin} (h : ∀ field, builtin ≠ .time field)
    (args : List Value) : Ends (fun _ => True) Run.Never (call store ref builtin args) := by
  unfold call
  split
  all_goals first
    | exact .pure trivial
    | exact array_never _
    | exact absurd rfl (h _)
    | exact fun _ => trivial
    | exact rangeArray_never _ _ _
    | split
  all_goals first
    | exact .pure trivial
    | exact array_never _
    | split <;> first | exact array_never _ | exact .pure trivial

/-- **Which calls break off.** -/
theorem call_breaks (ref : Ref) (builtin : Builtin) (args : List Value) :
    Breaks (TooLate builtin args) (call store ref builtin args) := by
  by_cases htime : ∃ field, builtin = .time field
  · obtain ⟨field, rfl⟩ := htime
    rcases args with _ | ⟨t, _ | ⟨second, rest⟩⟩
    · exact .pure (by rintro ⟨_, _, -, hargs, -⟩; cases hargs)
    · exact timeField_breaks field t
    · exact .pure (by rintro ⟨_, _, -, hargs, -⟩; cases hargs)
  · refine .never ?_ (call_never ref (fun field hfield => htime ⟨field, hfield⟩) args)
    rintro ⟨field, -, hfield, -⟩
    exact htime ⟨field, hfield⟩

end Library

/-! ## Operators -/

/-- The operator is a call, and its operands are a function and the array of the arguments with which the
function breaks off. -/
def Application.TooLate (store : Store) (x : Application) : Prop :=
  ∃ ref builtin arguments, x = ⟨.call, [.function ref builtin, arguments]⟩ ∧
    arguments.kind = .array ∧ Library.TooLate builtin (arguments.items store)

/-- Only a function breaks off. -/
theorem Application.not_tooLate {callee : Value} (h : ∀ ref builtin, callee ≠ .function ref builtin)
    (arguments : Value) : ¬Application.TooLate store ⟨.call, [callee, arguments]⟩ := by
  rintro ⟨ref, builtin, _, heq, -⟩
  cases heq
  exact h ref builtin rfl

namespace Operator

theorem call_breaks (callee arguments : Value) :
    Breaks (Application.TooLate store ⟨.call, [callee, arguments]⟩)
      (applyStrict store .call [callee, arguments]) := by
  have happly : applyStrict store .call [callee, arguments]
      = if arguments.kind == .array then callee.call store (arguments.items store) else pure .null := rfl
  rw [happly]
  by_cases hkind : arguments.kind = .array
  · rw [if_pos (by simpa using hkind)]
    cases callee with
    | function ref builtin =>
      refine (Library.call_breaks ref builtin _).congr ⟨fun h => ⟨ref, builtin, arguments, rfl, hkind, h⟩, ?_⟩
      rintro ⟨ref, builtin, arguments, h, -, hlate⟩
      cases h
      exact hlate
    | easing ref curve =>
      refine .never (Application.not_tooLate (fun _ _ h => by cases h) arguments) ?_
      unfold Value.call
      dsimp only
      split <;> exact .pure trivial
    | _ => exact .pure (Application.not_tooLate (fun _ _ h => by cases h) arguments)
  · rw [if_neg (by simpa using hkind)]
    refine .pure ?_
    rintro ⟨_, _, _, h, harray, -⟩
    cases h
    exact hkind harray

/-- **Which applications break off.** -/
theorem applyStrict_breaks (op : Operator) (operands : List Value) :
    Breaks (Application.TooLate store ⟨op, operands⟩) (op.applyStrict store operands) := by
  by_cases hcall : ∃ callee arguments, op = .call ∧ operands = [callee, arguments]
  · obtain ⟨callee, arguments, rfl, rfl⟩ := hcall
    exact call_breaks callee arguments
  · refine .never ?_ ?_
    · rintro ⟨ref, builtin, arguments, h, -⟩
      cases h
      exact hcall ⟨_, _, rfl, rfl⟩
    · unfold applyStrict
      split
      all_goals first
        | exact .pure trivial
        | exact Library.array_never _
        | exact absurd ⟨_, _, rfl, rfl⟩ hcall
        | skip
      split
      · exact Ends.fresh.bind fun _ _ => .pure trivial
      · exact .pure trivial

theorem applyTo_strict {op : Operator} (h : op.isLazy = false) (operands : List (Run Value)) :
    op.applyTo store operands = if op.arity.accepts operands.length then
      do op.applyStrict store (← runAll operands) else pure .null := by
  cases op <;> first | rfl | cases h

/-- Applied to values, a lazy operator runs nothing that could break off. -/
theorem lazy_never {op : Operator} (h : op.isLazy = true) (vs : List Value) :
    Ends (fun _ => True) Run.Never (op.applyTo store (vs.map pure)) := by
  have hvalue (a : Value) : Ends (fun _ => True) Run.Never (pure a : Run Value) := .pure trivial
  have hboth (condition : Bool) (a b : Value) :
      Ends (fun _ => True) Run.Never (if condition then (pure a : Run Value) else pure b) := by
    cases condition <;> exact hvalue _
  cases op
  case choose =>
    rcases vs with _ | ⟨c, _ | ⟨a, _ | ⟨b, _ | ⟨d, rest⟩⟩⟩⟩
    case cons.cons.cons.nil => exact (hvalue _).bind fun _ _ => hboth _ _ _
    all_goals exact hvalue _
  case and | or =>
    rcases vs with _ | ⟨a, _ | ⟨b, _ | ⟨c, rest⟩⟩⟩
    case cons.cons.nil => exact (hvalue _).bind fun _ _ => hboth _ _ _
    all_goals exact hvalue _
  case coalesce =>
    rcases vs with _ | ⟨a, _ | ⟨b, _ | ⟨c, rest⟩⟩⟩
    case cons.cons.nil => cases a <;> exact hvalue _
    all_goals exact hvalue _
  all_goals cases h

theorem applyTo_breaks (op : Operator) (vs : List Value) :
    Breaks (Application.TooLate store ⟨op, vs⟩) (op.applyTo store (vs.map pure)) := by
  cases hlazy : op.isLazy with
  | true =>
    refine .never ?_ (lazy_never hlazy vs)
    rintro ⟨_, _, _, h, -⟩
    cases h
    cases hlazy
  | false =>
    rw [applyTo_strict hlazy, List.length_map, runAll_pure]
    split
    · exact applyStrict_breaks op vs
    · next hno =>
      refine .pure ?_
      rintro ⟨_, _, _, h, -⟩
      cases h
      exact hno rfl

/-- **Which operands an operator cannot be put on.** -/
theorem build_breaks (op : Operator) (vs : List Value) :
    Breaks (isConstant store op vs = true ∧ Application.TooLate store ⟨op, vs⟩) (op.build store vs) := by
  unfold build
  by_cases hc : isConstant store op vs = true
  · rw [if_pos hc, apply, evaluations_of_free (free_of_isConstant hc)]
    exact (applyTo_breaks op vs).congr (iff_and_self.mpr fun _ => hc)
  · rw [if_neg hc]
    exact .never (fun h => hc h.1) (Ends.fresh.bind fun _ _ => .pure trivial)

end Operator

/-! ## What evaluation lists -/

/-- With the list forgotten the first computation is the second one, and it breaks off exactly if the
list holds an application that does. -/
def Tells {α : Type} (store : Store) (c : Listing α) (d : Run α) : Prop :=
  ∀ e made, ∃ new, c.run (e, made) = ((d.run e).1, ((d.run e).2, new ++ made)) ∧
    ((∃ x, (d.run e).1 = .error x) ↔ ∃ x ∈ new, x.TooLate store)

namespace Tells

variable {α β : Type}

theorem pure (a : α) : Tells store (pure a : Listing α) (pure a : Run α) :=
  fun _ _ => ⟨[], rfl, by simp⟩

theorem bind {c : Listing α} {d : Run α} {next : α → Listing β} {next' : α → Run β}
    (h : Tells store c d) (k : ∀ a, Tells store (next a) (next' a)) :
    Tells store (c >>= next) (d >>= next') := by
  intro e made
  obtain ⟨new, hrun, hnew⟩ := h e made
  rw [Run.run_bind, Run.run_bind, hrun]
  rcases hd : d.run e with ⟨x | a, e'⟩
  · rw [hd] at hnew
    exact ⟨new, rfl, iff_of_true ⟨x, rfl⟩ (hnew.mp ⟨x, rfl⟩)⟩
  · obtain ⟨more, hmore, hbreaks⟩ := k a e' (new ++ made)
    have hnone : ¬∃ x ∈ new, x.TooLate store := fun hlate => by
      rw [hd] at hnew
      obtain ⟨x, hx⟩ := hnew.mpr hlate
      cases hx
    refine ⟨more ++ new, ?_, hbreaks.trans ?_⟩
    · rw [List.append_assoc]
      exact hmore
    · constructor
      · rintro ⟨x, hx, hlate⟩
        exact ⟨x, List.mem_append_left _ hx, hlate⟩
      · rintro ⟨x, hx, hlate⟩
        rcases List.mem_append.mp hx with hx | hx
        · exact ⟨x, hx, hlate⟩
        · exact absurd ⟨x, hx, hlate⟩ hnone

theorem lazily {c d : Listing α} {c' d' : Run α} (condition : Bool) (h : Tells store c c')
    (k : Tells store d d') :
    Tells store (if condition then c else d) (if condition then c' else d') := by
  cases condition with
  | true => exact h
  | false => exact k

end Tells

theorem applyListed_tells (op : Operator) (operands : List Value) :
    Tells store (op.applyListed store operands) (op.applyStrict store operands) := by
  refine fun e made => ⟨[⟨op, operands⟩], rfl, ?_⟩
  rw [(Operator.applyStrict_breaks op operands).iff e]
  simp

theorem runAllListing_tells {cs : List (Listing Value)} {ds : List (Run Value)}
    (h : List.Forall₂ (Tells store) cs ds) :
    Tells store (Operator.runAllListing cs) (Operator.runAll ds) := by
  induction h with
  | nil => exact .pure _
  | cons hc _ ih => exact hc.bind fun v => ih.bind fun values => .pure _

theorem applyListing_tells (op : Operator) {cs : List (Listing Value)} {ds : List (Run Value)}
    (h : List.Forall₂ (Tells store) cs ds) :
    Tells store (op.applyListing store cs) (op.applyTo store ds) := by
  have hall : Tells store
      (if op.arity.accepts cs.length then do op.applyListed store (← Operator.runAllListing cs)
        else pure .null)
      (if op.arity.accepts ds.length then do op.applyStrict store (← Operator.runAll ds)
        else pure .null) := by
    rw [h.length_eq]
    exact .lazily _ ((runAllListing_tells h).bind fun values => applyListed_tells op values) (.pure _)
  cases op
  case choose =>
    rcases h with _ | ⟨hc, _ | ⟨ht, _ | ⟨hf, _ | ⟨_, _⟩⟩⟩⟩
    case cons.cons.cons.nil => exact hc.bind fun _ => .lazily _ ht hf
    all_goals exact hall
  case and =>
    rcases h with _ | ⟨ha, _ | ⟨hb, _ | ⟨_, _⟩⟩⟩
    case cons.cons.nil => exact ha.bind fun left => .lazily _ hb (.pure left)
    all_goals exact hall
  case or =>
    rcases h with _ | ⟨ha, _ | ⟨hb, _ | ⟨_, _⟩⟩⟩
    case cons.cons.nil => exact ha.bind fun left => .lazily _ (.pure left) hb
    all_goals exact hall
  case coalesce =>
    rcases h with _ | ⟨ha, _ | ⟨hb, _ | ⟨_, _⟩⟩⟩
    case cons.cons.nil => exact ha.bind fun left => by cases left <;> first | exact hb | exact .pure _
    all_goals exact hall
  all_goals exact hall

/-- **Evaluation breaks off exactly if it applies an operator that does.** -/
theorem eval_tells (v : Value) : Tells store (v.evalListing store) (v.eval store) := by
  induction v using nested_induction with
  | atom v h => cases v <;> first | exact .pure _ | exact h.elim
  | array | map | filter => exact .pure _
  | node ref op operands ih =>
    refine applyListing_tells op ?_
    rw [evaluationsListing_eq_map, evaluations_eq_map, List.forall₂_map_left_iff,
      List.forall₂_map_right_iff, List.forall₂_same]
    exact ih

end LiveTemplate
