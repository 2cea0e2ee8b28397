import LiveTemplate.Library.Catalog
import LiveTemplate.Proofs.Value.Plain
/-!
# What a root scope starts with

All that a root scope starts with is made of texts, numbers, truth values, functions, and maps of
these.  So it has every property that functions have and that operators do not lead out of; in
particular it is plain.  Making it takes references and nothing else, and cannot fail.
-/

set_option autoImplicit false

namespace LiveTemplate

open Value
open Run (Ends)

theorem Run.Ends.mapM {α β : Type} {value : β → Prop} {fault : Fault → Prop} {f : α → Run β}
    {xs : List α} (h : ∀ x ∈ xs, Ends value fault (f x)) :
    Ends (fun ys => ∀ y ∈ ys, value y) fault (xs.mapM f) := by
  induction xs with
  | nil =>
    rw [List.mapM_nil]
    exact .pure fun _ hy => nomatch hy
  | cons x rest ih =>
    rw [List.mapM_cons]
    refine (h x List.mem_cons_self).bind fun y hy => ?_
    refine (ih fun z hz => h z (List.mem_cons_of_mem _ hz)).bind fun ys hys => .pure ?_
    intro z hz
    rcases List.mem_cons.mp hz with rfl | hz
    · exact hy
    · exact hys z hz

namespace Library

theorem constantsOf_inline (name : String) : ∀ entry ∈ constantsOf name, entry.2.kind.isInline = true := by
  intro entry he
  unfold constantsOf at he
  split at he
  · obtain ⟨_, -, rfl⟩ := List.mem_map.mp he
    rfl
  · cases he

theorem viewportEntries_inline (viewport : Viewport) :
    ∀ entry ∈ viewportEntries viewport, entry.2.kind.isInline = true := by
  refine Json.sortFields_forall (P := fun v : Value => v.kind.isInline = true) fun entry he => ?_
  simp only [List.mem_cons, List.not_mem_nil, or_false] at he
  rcases he with rfl | rfl | rfl | rfl | rfl | rfl | rfl | rfl <;> rfl

theorem environmentEntries_inline (agent : Agent) :
    ∀ entry ∈ environmentEntries agent, entry.2.kind.isInline = true := by
  refine Json.sortFields_forall (P := fun v : Value => v.kind.isInline = true) fun entry he => ?_
  simp only [List.mem_cons, List.not_mem_nil, or_false] at he
  rcases he with rfl | rfl | rfl | rfl <;> rfl

section

variable {store : Store} {P : Value → Prop} (hP : Value.Closed store P)
  (hfunction : ∀ (ref : Ref) (builtin : Builtin), P (.function ref builtin))

include hP

theorem map_closed {entries : List (String × Value)} (h : ∀ entry ∈ entries, P entry.2) :
    Ends P Run.Never (Run.map entries) :=
  Ends.fresh.bind fun ref _ => .pure (hP.map ref entries h)

include hfunction

theorem functionMap_closed (functions : List (String × Builtin)) {constants : List (String × Value)}
    (h : ∀ entry ∈ constants, P entry.2) : Ends P Run.Never (functionMap functions constants) := by
  unfold functionMap
  refine (?_ : Ends (fun entries => ∀ entry ∈ entries, P entry.2) Run.Never _).bind
    fun entries hentries => map_closed hP (Json.sortFields_forall fun entry he => ?_)
  · exact .mapM fun _ _ => Ends.fresh.bind fun ref _ => .pure (hfunction ref _)
  rcases List.mem_append.mp he with he | he
  · exact hentries entry he
  · exact h entry he

/-- **What a root scope starts with** has every property that functions have and that operators do not
lead out of. -/
theorem rootBindings_closed (viewport : Viewport) (agent : Agent) :
    Ends (fun bindings => ∀ entry ∈ bindings, P entry.2) Run.Never (rootBindings viewport agent) := by
  have hinline : ∀ {entries : List (String × Value)},
      (∀ entry ∈ entries, entry.2.kind.isInline = true) → ∀ entry ∈ entries, P entry.2 :=
    fun h entry he => hP.scalar _ (h entry he)
  unfold rootBindings
  generalize catalog = functions
  have hviewport : Ends P Run.Never (Run.map (viewportEntries viewport)) :=
    map_closed hP (hinline (viewportEntries_inline viewport))
  have henvironment : Ends P Run.Never (Run.map (environmentEntries agent)) :=
    map_closed hP (hinline (environmentEntries_inline agent))
  refine hviewport.bind fun v hv => henvironment.bind fun w hw => ?_
  dsimp only
  refine (?_ : Ends (fun maps => ∀ entry ∈ maps, P entry.2) Run.Never _).bind
    fun maps hmaps => .pure fun entry he => ?_
  · refine .mapM fun entry _ => ?_
    have hconstants := hinline (constantsOf_inline entry.1)
    exact (functionMap_closed hP hfunction entry.2 hconstants).bind fun _ hmap => .pure hmap
  rcases List.mem_append.mp he with he | he
  · simp only [List.mem_cons, List.not_mem_nil, or_false] at he
    rcases he with rfl | rfl | rfl | rfl
    · exact hv
    · exact hw
    · exact hP.scalar _ rfl
    · exact hP.scalar _ rfl
  · exact hmaps entry he

end

theorem plain_function {store : Store} (ref : Ref) (builtin : Builtin) : Plain store (.function ref builtin) :=
  plain_intro ⟨rfl, nofun⟩ (fun _ h => nomatch h) fun _ h => nomatch h

/-- **A root scope starts with plain values.** -/
theorem rootBindings_plain {store : Store} (viewport : Viewport) (agent : Agent) :
    Ends (fun bindings => ∀ entry ∈ bindings, Plain store entry.2) Run.Never
      (rootBindings viewport agent) :=
  @rootBindings_closed store (Plain store) (closed_plain store) plain_function viewport agent

end Library

end LiveTemplate
