import LiveTemplate.Proofs.Watch.Growing
import LiveTemplate.Proofs.Watch.Watching
/-!
# Values stay up to date

A root scope is made, and then one step after the other: scopes are made below others, names are
bound that are new where they are bound, values are written by the user or by the system, watches
are made and let go.  After every step each watch that is held has the value that its expression
has, and no step recalculates a watch twice.

There is one way for a step to fail, an evaluation that overflows.  If that happens while a write is
being told, the write has changed the binding, and it is never told to the watches whose turn would
have come later.  They have old values until the next write that reaches them.
-/

set_option autoImplicit false

namespace LiveTemplate

open Value
open World

/-- What is done with scopes, bindings and watches, one step at a time. -/
inductive Move where
  | child (parent : ScopeId)
  | put (scope : ScopeId) (name : String) (kind : BindingKind) (value : Value)
  | userWrite (scope : ScopeId) (name : String) (value : Value)
  | systemWrite (scope : ScopeId) (name : String) (value : Value)
  | watch (scope : ScopeId) (source : String)
  | unwatch (id : WatchId)

namespace Action

open Run (run_bind run_pure)

/-- Do something for what it changes. -/
def forget {α : Type} (action : Action α) : Action Unit := do
  let _ ← action
  return ()

theorem run_forget {α : Type} {action : Action α} {world world' : World}
    {result : Except Fault Unit} (h : (forget action).run world = (result, world')) :
    ∃ outcome, action.run world = (outcome, world') ∧ result = outcome.map fun _ => () := by
  unfold forget at h
  rw [run_bind] at h
  rcases hr : action.run world with ⟨x | a, last⟩ <;> rw [hr] at h
  · obtain ⟨rfl, rfl⟩ := Prod.mk.inj h
    exact ⟨_, rfl, rfl⟩
  · obtain ⟨rfl, rfl⟩ := Prod.mk.inj h
    exact ⟨_, rfl, rfl⟩

theorem Keeps.map {α β : Type} {result : Except Fault α} {world world' : World}
    (h : Keeps result world world') (f : α → β) : Keeps (result.map f) world world' := by
  refine ⟨h.wired, h.counts, fun x hx => h.fault x ?_⟩
  cases result with
  | ok a => cases hx
  | error y =>
    obtain rfl : y = x := by injection hx
    rfl

end Action

theorem World.staleAfter_map {α β : Type} (world : World) (result : Except Fault α) (f : α → β)
    (told stale : List WatchId) :
    world.staleAfter (result.map f) told stale = world.staleAfter result told stale := by
  cases result <;> rfl

namespace Move

open LiveTemplate.Action

/-- The step itself. -/
def perform : Move → Action Unit
  | child parent => forget (newChild parent)
  | put scope name kind value => Action.put scope name kind value
  | userWrite scope name value => forget (Action.userWrite scope name value)
  | systemWrite scope name value => forget (Action.systemWrite scope name value)
  | watch scope source => forget (Action.watch scope source)
  | unwatch id => Action.unwatch id

/-- Only new names are bound, and values reach no nodes, no symbols and no scopes. -/
def Allowed (store : Store) : Move → Prop
  | put scope name _ value => store.ownBinding? scope name = none ∧ Plain store value
  | userWrite _ _ value => Plain store value
  | systemWrite _ _ value => Plain store value
  | _ => True

/-- The watches that the step tells of a new value. -/
def told (world : World) : Move → List WatchId
  | userWrite scope name value => Action.told (· == .user) scope name value world
  | systemWrite scope name value => Action.told (· != .constant) scope name value world
  | child _ => []
  | put _ _ _ _ => []
  | watch _ _ => []
  | unwatch _ => []

variable {world world' : World} {result : Except Fault Unit}

theorem perform_keeps {move : Move} (hwired : world.Wired) (hallowed : move.Allowed world.store)
    (h : move.perform.run world = (result, world')) : Keeps result world world' := by
  cases move with
  | child parent =>
    obtain ⟨outcome, hrun, rfl⟩ := run_forget h
    exact (newChild_keeps hwired hrun).map _
  | put scope name kind value => exact put_keeps hwired hallowed.2 h
  | userWrite scope name value =>
    obtain ⟨outcome, hrun, rfl⟩ := run_forget h
    exact (writeIf_keeps hwired hallowed hrun).map _
  | systemWrite scope name value =>
    obtain ⟨outcome, hrun, rfl⟩ := run_forget h
    exact (writeIf_keeps hwired hallowed hrun).map _
  | watch scope source =>
    obtain ⟨outcome, hrun, rfl⟩ := run_forget h
    exact (watch_keeps hwired hrun).map _
  | unwatch id => exact unwatch_keeps hwired h

theorem perform_fresh {move : Move} {stale : List WatchId} (hwired : world.Wired)
    (hfresh : world.Fresh stale) (hallowed : move.Allowed world.store)
    (h : move.perform.run world = (result, world')) (hquiet : world'.Quiet) :
    world'.Fresh (world'.staleAfter result (move.told world) stale) := by
  cases move with
  | child parent =>
    obtain ⟨outcome, hrun, rfl⟩ := run_forget h
    rw [told, staleAfter_nobody]
    exact newChild_fresh hwired hfresh hrun
  | put scope name kind value =>
    rw [told, staleAfter_nobody]
    exact put_fresh hwired hallowed.2 hallowed.1 hfresh h
  | userWrite scope name value =>
    obtain ⟨outcome, hrun, rfl⟩ := run_forget h
    rw [told, staleAfter_map]
    exact writeIf_fresh hwired hallowed hfresh hrun hquiet
  | systemWrite scope name value =>
    obtain ⟨outcome, hrun, rfl⟩ := run_forget h
    rw [told, staleAfter_map]
    exact writeIf_fresh hwired hallowed hfresh hrun hquiet
  | watch scope source =>
    obtain ⟨outcome, hrun, rfl⟩ := run_forget h
    rw [told, staleAfter_nobody]
    exact watch_fresh hwired hfresh hrun hquiet
  | unwatch id =>
    rw [told, staleAfter_nobody]
    exact unwatch_fresh hwired hfresh h

end Move

/-! ## Runs -/

/-- The world after some steps, whether they succeed or not. -/
def World.after (world : World) : List Move → World
  | [] => world
  | move :: rest => ((move.perform.run world).2).after rest

/-- A root scope, and nothing else yet. -/
def onlyRoot : World := ((Action.newRoot {} {}).run (Action.bare [] (Effects.initial 1))).2

/-- A name is bound, watched, and written. -/
def bindWatchWrite : List Move :=
  [.put 0 "x" .user (.text "a"), .watch 0 "$\x7bx\x7d", .userWrite 0 "x" (.text "b")]

/-- The worlds that arise from a root scope by steps that are allowed, with the watches that may be
left with old values.  No step leaves a watch whose evaluation calls an impure function. -/
inductive World.Arises : World → List WatchId → Prop
  | root (cells : List (Ref × Cell)) (effects : Effects) (viewport : Viewport) (agent : Agent) :
      Arises ((Action.newRoot viewport agent).run (Action.bare cells effects)).2 []
  | step {world world' : World} {stale : List WatchId} {move : Move} {result : Except Fault Unit} :
      Arises world stale → move.Allowed world.store →
      move.perform.run world = (result, world') → world'.Quiet →
      Arises world' (world'.staleAfter result (move.told world) stale)

theorem World.quiet_of_all {world : World} (h : (world.watches.all fun watch =>
    ((watch.expression.eval world.store).run world.effects).2.calls == world.effects.calls) = true) :
    world.Quiet := by
  intro id watch hwatch _
  exact eq_of_beq (List.all_eq_true.mp h watch (List.mem_of_getElem? hwatch))

namespace World.Arises

variable {world : World} {stale : List WatchId}

theorem wired_fresh (h : Arises world stale) : world.Wired ∧ world.Fresh stale := by
  induction h with
  | root cells effects viewport agent =>
    obtain ⟨world, hrun, hwired, hwatches⟩ := Action.newRoot_wired cells effects viewport agent
    rw [hrun]
    refine ⟨hwired, fun id watch hwatch => ?_⟩
    rw [hwatches] at hwatch
    cases hwatch
  | step _ hallowed hrun hquiet ih =>
    obtain ⟨hwired, hfresh⟩ := ih
    exact ⟨(Move.perform_keeps hwired hallowed hrun).wired,
      Move.perform_fresh hwired hfresh hallowed hrun hquiet⟩

/-- As long as every step succeeds, no watch is left with an old value. -/
theorem next (h : Arises world []) {move : Move} (hallowed : move.Allowed world.store)
    (hok : (move.perform.run world).1.isOk = true) (hquiet : (move.perform.run world).2.Quiet) :
    Arises (move.perform.run world).2 [] := by
  rcases hrun : move.perform.run world with ⟨x | done, world'⟩ <;> rw [hrun] at hok hquiet
  · cases hok
  · exact h.step hallowed hrun hquiet

/-- **Values stay up to date.**  In every world that arises, each watch that is held has the value
that its expression has, unless a write broke off before the watch was reached; and every step from
there either succeeds or overflows, and changes the value of a watch once at most. -/
theorem values_live (h : Arises world stale) :
    (∀ (id : WatchId) (watch : Watch), world.watches[id]? = some watch → watch.isHeld = true →
      id ∉ stale → watch.IsCurrent world.store) ∧
    ∀ (move : Move) (result : Except Fault Unit) (world' : World),
      move.Allowed world.store → move.perform.run world = (result, world') →
      (∀ x, result = .error x → x = .sumOverflow) ∧
      ∀ (id : WatchId) (watch : Watch), world.watches[id]? = some watch →
        ∃ later : Watch, world'.watches[id]? = some later ∧ watch.changes ≤ later.changes ∧
          later.changes ≤ watch.changes + 1 := by
  obtain ⟨hwired, hfresh⟩ := h.wired_fresh
  refine ⟨hfresh, fun move result world' hallowed hrun => ?_⟩
  have hkeeps := Move.perform_keeps hwired hallowed hrun
  exact ⟨hkeeps.fault, hkeeps.counts⟩

end World.Arises

theorem values_live_of_write : ∃ watch, (onlyRoot.after bindWatchWrite).watches[0]? = some watch ∧
    watch.changes = 1 ∧ watch.IsCurrent (onlyRoot.after bindWatchWrite).store ∧
    ∃ later, ((onlyRoot.after bindWatchWrite).after [.userWrite 0 "x" (.text "c")]).watches[0]? =
      some later ∧ later.changes ≤ 2 := by
  have hroot : World.Arises onlyRoot [] := .root [] (Effects.initial 1) {} {}
  have hfree : onlyRoot.store.ownBinding? 0 "x" = none :=
    Option.isNone_iff_eq_none.mp (by decide +kernel)
  have hput : World.Arises (onlyRoot.after [.put 0 "x" .user (.text "a")]) [] :=
    hroot.next ⟨hfree, plain_inline rfl⟩ rfl (World.quiet_of_all (by decide +kernel))
  have hwatch : World.Arises (onlyRoot.after [.put 0 "x" .user (.text "a"),
      .watch 0 "$\x7bx\x7d"]) [] :=
    hput.next trivial (by decide +kernel) (World.quiet_of_all (by decide +kernel))
  have hwrite : World.Arises (onlyRoot.after bindWatchWrite) [] :=
    hwatch.next (plain_inline rfl) (by decide +kernel) (World.quiet_of_all (by decide +kernel))
  have hfirst : ((onlyRoot.after bindWatchWrite).watches[0]?.any fun watch =>
      watch.isHeld && watch.changes == 1) = true := by decide +kernel
  generalize onlyRoot.after bindWatchWrite = world at hwrite hfirst ⊢
  obtain ⟨watch, hsome, hholds⟩ := (Option.any_eq_true _ _).mp hfirst
  obtain ⟨hheld, hchanges⟩ := (Bool.and_eq_true _ _).mp hholds
  obtain ⟨hcurrent, hnext⟩ := World.Arises.values_live hwrite
  obtain ⟨-, hcounts⟩ := hnext (.userWrite 0 "x" (.text "c")) _ _ (plain_inline rfl) rfl
  obtain ⟨later, hlater, -, hle⟩ := hcounts 0 watch hsome
  have hone : watch.changes = 1 := eq_of_beq hchanges
  rw [hone] at hle
  exact ⟨watch, hsome, hone, hcurrent 0 watch hsome hheld (by simp), later, hlater, hle⟩

/-- The exception is one: the first watch overflows, and the second one is never told. -/
example :
    let moves : List Move := [.put 0 "x" .user (.number 0), .watch 0 "$\x7bTime.year(x)\x7d",
      .watch 0 "$\x7bx\x7d", .userWrite 0 "x" (.number 1e300)]
    ((onlyRoot.after moves).watches[1]?.any fun watch =>
      watch.isHeld && !watch.value.same (onlyRoot.after moves).store (.number 1e300)) = true := by
  decide +kernel

end LiveTemplate
