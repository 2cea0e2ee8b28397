import LiveTemplate.Proofs.Operator.Discreet
import LiveTemplate.Proofs.Operator.Parallel
import LiveTemplate.Proofs.Watch.Course
import LiveTemplate.Proofs.Watch.Freshness
/-!
# Whom a write tells

A write that stores its value tells everybody who is listed under the name with the owner of the name,
and when all are told, all have the values of their expressions.  What is bound elsewhere, how the
listing came about and what the expressions reach does not matter for that, and not how often a watch
is listed either.

A write of the value that is there already tells nobody.  It is successful, and it is right to change
nothing as long as the value that is there was told.  It may not have been: binding a name anew tells
nobody, and no more does an edit in place.  Then whoever was behind is behind after the write, too.
-/

set_option autoImplicit false

namespace LiveTemplate

open Value

/-! ## Quiet evaluations -/

/-- **An evaluation that calls no impure function settles the matter**, whatever the value reaches:
every other evaluation in the same store ends in the same value but for the references of arrays and
maps, or in the same fault, and calls none either. -/
theorem Value.eval_quiet {store : Store} {v : Value} {e : Effects}
    (hquiet : ((v.eval store).run e).2.calls = e.calls) (f : Effects) :
    Run.Paired (fun _ f' => f'.calls = f.calls) Run.Never (fun a b => a.bare = b.bare)
      ((v.eval store).run e) ((v.eval store).run f) :=
  (discreet_eval store v).settles (eval_steady v) hquiet f

namespace Watch

variable {store : Store} {watch : Watch}

/-- Whenever the expression is evaluated, the watch has the value already: they are equal, or else the
same but for the references of arrays and maps, like not-a-number beside itself. -/
def IsFresh (store : Store) (watch : Watch) : Prop :=
  ∀ e, ∃ v e', (watch.expression.eval store).run e = (.ok v, e') ∧ e'.calls = e.calls ∧
    (watch.value.same store v = true ∨ watch.value.bare = v.bare)

/-- If nothing impure is called, a value that was calculated once is what is calculated now. -/
theorem Matches.isFresh (h : watch.Matches store) {e : Effects} (hquiet : watch.IsQuiet store e) :
    watch.IsFresh store := by
  intro f
  obtain ⟨a, v, b, f', hr, hcalls, hav, hab, hagrees⟩ := h.again (Value.eval_quiet hquiet) f
  have hvb : (bareBlur store).Like v b := hav.symm.trans hab
  refine ⟨b, f', hr, hcalls, ?_⟩
  rcases hagrees with hsame | heq
  · exact .inl (((bareBlur store).same rfl hvb trivial).symm.trans hsame)
  · exact .inr (heq ▸ hvb)

/-- Evaluated now, the expression calls nothing impure and has a value with another text. -/
def isBehind (store : Store) (e : Effects) (watch : Watch) : Bool :=
  let outcome := (watch.expression.eval store).run e
  outcome.2.calls == e.calls && outcome.1.toOption.any fun v =>
    !watch.value.same store v && watch.value.bare.toText != v.bare.toText

theorem not_isFresh_of_isBehind {e : Effects} (h : watch.isBehind store e = true) :
    watch.IsQuiet store e ∧ ¬watch.IsFresh store := by
  obtain ⟨hquiet, hbehind⟩ := (Bool.and_eq_true _ _).mp h
  refine ⟨eq_of_beq hquiet, fun hfresh => ?_⟩
  obtain ⟨v, e', hr, -, hagrees⟩ := hfresh e
  rw [hr] at hbehind
  obtain ⟨hdiffers, htext⟩ := (Bool.and_eq_true _ _).mp hbehind
  rcases hagrees with hsame | hbare
  · simp [hsame] at hdiffers
  · simp [hbare] at htext

end Watch

/-! ## Whom a write tells -/

namespace Action

open World

variable {world world' : World} {mayWrite : BindingKind → Bool} {scope owner : ScopeId} {name : String}
  {value : Value} {binding : Binding}

/-- After a write nobody is listed who lives and was not told. -/
theorem live_of_written (hsound : ∀ table ∈ world.tables, table.Sound)
    (hsame : (written world owner name binding).SameWatches world') :
    (world'.table owner).live world'.isLive name = (world.table owner).live world.isLive name := by
  have hlive : world'.isLive = world.isLive := hsame.isLive
  have htable : world'.table owner = (written world owner name binding).table owner := by
    unfold World.table
    rw [hsame.tables]
  rw [hlive, htable]
  by_cases hlt : owner < world.tables.length
  · have hcompact : (written world owner name binding).table owner =
        (world.table owner).compact world.isLive name := table_modifyTable_self hlt _
    have hlisted := (hsound _ (table_mem hlt)).listed_compact world.isLive name name
    unfold WatchTable.live at hlisted ⊢
    rw [hcompact, hlisted, if_pos rfl, List.filter_filter]
    simp only [Bool.and_self]
  · have hempty : (written world owner name binding).table owner = world.table owner := by
      rw [table_eq_empty hlt, table_eq_empty]
      exact fun h => hlt ((List.length_modify ..) ▸ h)
    rw [hempty]

/-- A write that succeeds changes nothing, because the value was there, or else it leaves nobody behind
who is listed. -/
theorem writeIf_tells (hsound : ∀ table ∈ world.tables, table.Sound)
    (h : (writeIf mayWrite scope name value).run world = (.ok true, world')) :
    ∃ owner binding, world.store.owned? scope name = some (owner, binding) ∧
      ((binding.value.same world.store value = true ∧ world' = world) ∨
        (world'.store = world.store.bind owner name ⟨value, binding.kind⟩ ∧
          ∀ id ∈ (world'.table owner).live world'.isLive name, ∀ watch : Watch,
            world'.watches[id]? = some watch → watch.Matches world'.store)) := by
  rcases writeIf_ends h with ⟨-, hno, -⟩ | ⟨owner, binding, howned, hends⟩
  · cases hno
  · refine ⟨owner, binding, howned, ?_⟩
    rcases hends with ⟨-, hno, -⟩ | ⟨-, hsame, -, rfl⟩ | ⟨-, -, outcome, hrun, hresult⟩
    · cases hno
    · exact .inl ⟨hsame, rfl⟩
    · obtain ⟨last, ⟨hall, hsteps⟩ | ⟨hall, -⟩⟩ := recalculateAll_cases
        ((world.table owner).live world.isLive name) (written world owner name ⟨value, binding.kind⟩)
      · obtain ⟨rfl, rfl⟩ := Prod.mk.inj (hrun.symm.trans hall)
        refine .inr ⟨hsteps.sameWatches.store, fun id hid watch hwatch => ?_⟩
        rw [live_of_written hsound hsteps.sameWatches] at hid
        rw [hsteps.sameWatches.store]
        exact hsteps.matches hid hwatch
      · obtain ⟨rfl, rfl⟩ := Prod.mk.inj (hrun.symm.trans hall)
        cases hresult

/-- **Whom a write leaves behind.**  Whatever was done before: a write of the user or of the system that
succeeds was of the value that is there and has changed nothing at all; or it has stored its value, and
every live watch that is listed under the name with the owner of the name, and whose evaluation calls
no impure function, has the value of its expression. -/
theorem write_leaves_nobody_behind (hreach : world.Reachable)
    (h : (userWrite scope name value).run world = (.ok true, world') ∨
      (systemWrite scope name value).run world = (.ok true, world')) :
    ∃ owner binding, world.store.owned? scope name = some (owner, binding) ∧
      ((binding.value.same world.store value = true ∧ world' = world) ∨
        (world'.store = world.store.bind owner name ⟨value, binding.kind⟩ ∧
          ∀ id ∈ (world'.table owner).live world'.isLive name, ∀ watch : Watch,
            world'.watches[id]? = some watch → ∀ e, watch.IsQuiet world'.store e →
              watch.IsFresh world'.store)) := by
  have htells : ∀ mayWrite, (writeIf mayWrite scope name value).run world = (.ok true, world') → _ :=
    fun mayWrite => writeIf_tells hreach.rooted.sound
  obtain ⟨owner, binding, howned, hends⟩ := h.elim (htells _) (htells _)
  refine ⟨owner, binding, howned, hends.imp_right fun ⟨hstore, hmatches⟩ => ⟨hstore, ?_⟩⟩
  exact fun id hid watch hwatch e hquiet => (hmatches id hid watch hwatch).isFresh hquiet

/-- A root in which a name is bound and watched. -/
def watchedRoot : World :=
  ((Action.watch 0 "$\x7bx\x7d").run ((put 0 "x" .user (.text "a")).run onlyRoot).2).2

/-- The root after the name was bound anew. -/
def reboundRoot : World := ((put 0 "x" .user (.text "b")).run watchedRoot).2

theorem reachable_watchedRoot : watchedRoot.Reachable :=
  ((World.Reachable.initial 1).step (.newRoot {} {})).step (.put 0 "x" .user (.text "a"))
    |>.step (.watch 0 "$\x7bx\x7d")

theorem write_leaves_nobody_behind_of_text : watchedRoot.Reachable ∧
    ∃ world', (userWrite 0 "x" (.text "b")).run watchedRoot = (.ok true, world') ∧
      0 ∈ (world'.table 0).live world'.isLive "x" ∧
      ∃ watch, world'.watches[0]? = some watch ∧ watch.IsFresh world'.store := by
  refine ⟨reachable_watchedRoot, ?_⟩
  have hbound : ((watchedRoot.store.owned? 0 "x").any fun found =>
      found.1 == 0 && !found.2.value.same watchedRoot.store (.text "b")) = true := by decide +kernel
  have hwritten : ((userWrite 0 "x" (.text "b")).run watchedRoot).1.toOption = some true := by
    decide +kernel
  have hlisted : 0 ∈ (((userWrite 0 "x" (.text "b")).run watchedRoot).2.table 0).live
      ((userWrite 0 "x" (.text "b")).run watchedRoot).2.isLive "x" := by decide +kernel
  have hquiet : (((userWrite 0 "x" (.text "b")).run watchedRoot).2.watches[0]?.any fun watch =>
      let last := ((userWrite 0 "x" (.text "b")).run watchedRoot).2
      ((watch.expression.eval last.store).run last.effects).2.calls == last.effects.calls) = true := by
    decide +kernel
  rcases hrun : (userWrite 0 "x" (.text "b")).run watchedRoot with ⟨_ | done, world'⟩ <;>
    rw [hrun] at hwritten hlisted hquiet
  · cases hwritten
  · obtain rfl : done = true := Option.some.inj hwritten
    obtain ⟨watch, hwatch, hquiet⟩ := (Option.any_eq_true _ _).mp hquiet
    refine ⟨world', rfl, hlisted, watch, hwatch, ?_⟩
    obtain ⟨owner, binding, howned, ⟨hsame, -⟩ | ⟨-, hfresh⟩⟩ :=
      write_leaves_nobody_behind reachable_watchedRoot (.inl hrun)
    · simp [howned, hsame] at hbound
    · rw [howned] at hbound
      obtain rfl : owner = 0 := eq_of_beq ((Bool.and_eq_true _ _).mp hbound).1
      exact hfresh 0 hlisted watch hwatch world'.effects (eq_of_beq hquiet)

/-- The value is there already, and whoever has not been told of it is not told now. -/
theorem equal_write_leaves_behind : reboundRoot.Reachable ∧
    (userWrite 0 "x" (.text "b")).run reboundRoot = (.ok true, reboundRoot) ∧
    (∃ binding, reboundRoot.store.owned? 0 "x" = some (0, binding)) ∧
    0 ∈ (reboundRoot.table 0).live reboundRoot.isLive "x" ∧
    ∃ watch, reboundRoot.watches[0]? = some watch ∧
      watch.IsQuiet reboundRoot.store reboundRoot.effects ∧ ¬watch.IsFresh reboundRoot.store := by
  refine ⟨reachable_watchedRoot.step (.put 0 "x" .user (.text "b")), ?_⟩
  have hbound : ((reboundRoot.store.owned? 0 "x").any fun found => found.1 == 0 &&
      found.2.kind == .user && found.2.value.same reboundRoot.store (.text "b")) = true := by
    decide +kernel
  have hlisted : 0 ∈ (reboundRoot.table 0).live reboundRoot.isLive "x" := by decide +kernel
  have hbehind : (reboundRoot.watches[0]?.any fun watch =>
      watch.isBehind reboundRoot.store reboundRoot.effects) = true := by decide +kernel
  generalize reboundRoot = world at hbound hlisted hbehind ⊢
  obtain ⟨⟨owner, binding⟩, howned, hbound⟩ := (Option.any_eq_true _ _).mp hbound
  obtain ⟨hbound, hsame⟩ := (Bool.and_eq_true _ _).mp hbound
  obtain ⟨howner, hkind⟩ := (Bool.and_eq_true _ _).mp hbound
  obtain rfl : owner = 0 := eq_of_beq howner
  obtain ⟨watch, hwatch, hbehind⟩ := (Option.any_eq_true _ _).mp hbehind
  refine ⟨?_, ⟨binding, howned⟩, hlisted, watch, hwatch, Watch.not_isFresh_of_isBehind hbehind⟩
  have hkind : binding.kind = .user := eq_of_beq hkind
  simp only at hsame
  unfold userWrite writeIf
  simp [Run.run_bind, howned, hkind, hsame]

end Action

end LiveTemplate
