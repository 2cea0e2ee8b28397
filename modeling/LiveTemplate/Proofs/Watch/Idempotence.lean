import LiveTemplate.Proofs.Value.Reflexive
import LiveTemplate.Proofs.Watch.Telling
/-!
# Recalculating a watch twice

A second recalculation, right after the first one, finds the value that the first one has left behind, or
one that differs from it in nothing but the references of arrays and maps.  So it should change nothing,
and it changes nothing if this value equals itself.

If it does not, every recalculation counts as a change, although whoever reads the value sees the same each
time.  A number that is none is enough for that, and it need not be the value: an array with such a number
in it differs from itself, too.
-/

set_option autoImplicit false

namespace LiveTemplate

open Value

namespace Watch

variable {store : Store} {watch settled later : Watch} {first second : Except Fault Bool} {e e' : Effects}

/-! ## The second evaluation -/

/-- After a quiet evaluation with a value every other one has a value like it. -/
theorem IsQuiet.value_again (hquiet : watch.IsQuiet store e) {v : Value}
    (hr : (watch.expression.eval store).run e = (.ok v, e')) (f : Effects) :
    ∃ v' f', (watch.expression.eval store).run f = (.ok v', f') ∧ v'.bare = v.bare := by
  have hagain := Value.eval_quiet hquiet f
  rw [hr] at hagain
  revert hagain
  rcases (watch.expression.eval store).run f with ⟨outcome, f'⟩
  intro hagain
  cases hagain with
  | values hbare _ => exact ⟨_, f', rfl, hbare.symm⟩

/-- After a quiet evaluation that ends in a fault every other one ends in it. -/
theorem IsQuiet.fault_again (hquiet : watch.IsQuiet store e) {x : Fault}
    (hr : (watch.expression.eval store).run e = (.error x, e')) (f : Effects) :
    ∃ f', (watch.expression.eval store).run f = (.error x, f') := by
  have hagain := Value.eval_quiet hquiet f
  rw [hr] at hagain
  revert hagain
  rcases (watch.expression.eval store).run f with ⟨outcome, f'⟩
  intro hagain
  cases hagain with
  | faults _ => exact ⟨f', rfl⟩
  | alone hx => exact hx.elim

/-! ## Two recalculations -/

/-- What the expression of a watch comes to, what two recalculations tell then, and what becomes of the watch
by the first and by the second one. -/
inductive Twice (store : Store) (watch settled later : Watch) :
    Except Fault Value → Except Fault Bool → Except Fault Bool → Prop
  /-- The expression has no value, and the watch keeps the one that it had. -/
  | fault {x : Fault} : settled = watch → later = watch →
    Twice store watch settled later (.error x) (.error x) (.error x)
  /-- The value was there already. -/
  | kept {v : Value} : watch.value.same store v = true → settled = watch → later = watch →
    Twice store watch settled later (.ok v) (.ok false) (.ok false)
  /-- The value is a new one, and it stays. -/
  | changed {v : Value} : watch.value.same store v = false →
    settled = { watch with value := v, changes := watch.changes + 1 } → v.same store v = true → later = settled →
    Twice store watch settled later (.ok v) (.ok true) (.ok false)
  /-- The value differs from itself, and so the watch changes again, though not to another value. -/
  | restless {v v' : Value} : watch.value.same store v = false →
    settled = { watch with value := v, changes := watch.changes + 1 } → v.same store v = false →
    later = { settled with value := v', changes := settled.changes + 1 } → v'.bare = v.bare →
    Twice store watch settled later (.ok v) (.ok true) (.ok true)

/-- The watch after a recalculation that has found a value. -/
def renewed (store : Store) (watch : Watch) (v : Value) : Watch :=
  if watch.value.same store v = true then watch else { watch with value := v, changes := watch.changes + 1 }

theorem expression_renewed (store : Store) (watch : Watch) (v : Value) :
    (watch.renewed store v).expression = watch.expression := by
  unfold renewed
  split <;> rfl

theorem renewed_of_same {v : Value} (h : watch.value.same store v = true) : watch.renewed store v = watch :=
  if_pos h

theorem renewed_of_not_same {v : Value} (h : watch.value.same store v = false) :
    watch.renewed store v = { watch with value := v, changes := watch.changes + 1 } :=
  if_neg (h ▸ Bool.false_ne_true)

/-- What becomes of a watch by two values in a row that are the same but for the references of arrays and
maps. -/
theorem twice_renewed (store : Store) (watch : Watch) {v v' : Value} (hlike : v'.bare = v.bare) :
    Twice store watch (watch.renewed store v) ((watch.renewed store v).renewed store v')
      (.ok v) (.ok !watch.value.same store v) (.ok !(watch.renewed store v).value.same store v') := by
  -- equality does not see the references in which the two values differ
  have hblind : ∀ w : Value, w.same store v' = w.same store v := fun w =>
    (bareBlur store).same rfl hlike trivial
  cases hsame : watch.value.same store v with
  | true =>
    rw [renewed_of_same hsame, hblind, hsame]
    exact .kept hsame rfl (renewed_of_same ((hblind _).trans hsame))
  | false =>
    have hsettled := renewed_of_not_same hsame
    have hvalue : (watch.renewed store v).value = v := by rw [hsettled]
    have hagain : (watch.renewed store v).value.same store v' = v.same store v := by rw [hblind, hvalue]
    rw [hagain]
    cases hself : v.same store v with
    | true => exact .changed hsame hsettled hself (renewed_of_same (hagain.trans hself))
    | false => exact .restless hsame hsettled hself (renewed_of_not_same (hagain.trans hself)) hlike

variable {outcome : Except Fault Value}

/-- The second recalculation counts exactly if the first one does and leaves a value with something in it
that differs from itself. -/
theorem Twice.again_iff (h : Twice store watch settled later outcome first second)
    (hmade : ∀ w, Involves store settled.value w → w.WellMade store) :
    second = .ok true ↔ first = .ok true ∧ ∃ w, Involves store settled.value w ∧ w.Differs store := by
  have hself := same_self_iff hmade
  cases h with
  | fault | kept => simp
  | @changed v _ hsettled hsame =>
    have hvalue : settled.value = v := by rw [hsettled]
    have hnone := hself.mp (hvalue ▸ hsame)
    simpa using hnone
  | @restless v _ _ hsettled hdiffers =>
    have hvalue : settled.value = v := by rw [hsettled]
    have hsome : ¬∀ w, Involves store settled.value w → ¬w.Differs store := by
      rw [← hself, hvalue, hdiffers]
      exact Bool.false_ne_true
    simpa using hsome

end Watch

namespace Action

variable {world : World} {id : WatchId} {watch : Watch}

/-- A recalculation that finds a value renews the watch, and tells whether that changed it. -/
theorem run_recalculate_value (hwatch : world.watches[id]? = some watch) {v : Value} {e : Effects}
    (hr : (watch.expression.eval world.store).run world.effects = (.ok v, e)) :
    ∃ world', (recalculate id).run world = (.ok !watch.value.same world.store v, world') ∧
      world'.store = world.store ∧ world'.watches[id]? = some (watch.renewed world.store v) := by
  cases hsame : watch.value.same world.store v with
  | true =>
    rw [Watch.renewed_of_same hsame]
    exact ⟨_, run_recalculate_same hwatch hr hsame, rfl, hwatch⟩
  | false =>
    rw [Watch.renewed_of_not_same hsame]
    exact ⟨_, run_recalculate_changed hwatch hr hsame, rfl, World.watches_modifyWatch_self _ hwatch _⟩

/-- **Recalculating twice.**  If evaluating the expression of a watch calls nothing impure, the second of
two recalculations in a row ends as the first one does if that one ends in a fault; and else it tells that
nothing has changed and changes nothing about the watch, unless the value that the first one has found is new
and differs from itself.  Then both of them count, and the value is the same as before but for the references
of arrays and maps.  The value differs from itself exactly if it involves something that does: a number that
is none, something opaque without an identity, or a container that holds itself. -/
theorem recalculate_twice (hwatch : world.watches[id]? = some watch)
    (hquiet : watch.IsQuiet world.store world.effects) :
    ∃ first middle settled second last later,
      (recalculate id).run world = (first, middle) ∧ middle.watches[id]? = some settled ∧
      (recalculate id).run middle = (second, last) ∧ last.watches[id]? = some later ∧
      last.store = world.store ∧
      watch.Twice world.store settled later ((watch.expression.eval world.store).run world.effects).1 first second ∧
      ((∀ w, Involves world.store settled.value w → w.WellMade world.store) →
        (second = .ok true ↔ first = .ok true ∧
          ∃ w, Involves world.store settled.value w ∧ w.Differs world.store)) := by
  rcases hr : (watch.expression.eval world.store).run world.effects with ⟨x | v, e⟩
  · obtain ⟨f, hs⟩ := hquiet.fault_again hr e
    have htwice : watch.Twice world.store watch watch (.error x) (.error x) (.error x) := .fault rfl rfl
    have hsettled : { world with effects := e }.watches[id]? = some watch := hwatch
    exact ⟨_, _, watch, _, _, watch, run_recalculate_fault hwatch hr, hsettled, run_recalculate_fault hsettled hs,
      hwatch, rfl, htwice, htwice.again_iff⟩
  · obtain ⟨middle, hfirst, hstore, hsettled⟩ := run_recalculate_value hwatch hr
    obtain ⟨v', f, hs, hlike⟩ := hquiet.value_again hr middle.effects
    have hagain : ((watch.renewed world.store v).expression.eval middle.store).run middle.effects = (.ok v', f) := by
      rw [Watch.expression_renewed, hstore, hs]
    obtain ⟨last, hsecond, hlast, hlater⟩ := run_recalculate_value hsettled hagain
    rw [hstore] at hsecond hlater
    have htwice := Watch.twice_renewed world.store watch hlike
    exact ⟨_, middle, _, _, last, _, hfirst, hsettled, hsecond, hlater, hlast.trans hstore, htwice, htwice.again_iff⟩

/-- A root in which a name is watched that is bound to not-a-number. -/
def nanRoot : World :=
  ((Action.watch 0 "$\x7bx\x7d").run ((put 0 "x" .user (.number Number.nan)).run onlyRoot).2).2

/-- The same number is counted twice. -/
theorem recalculate_twice_of_nan : ∃ watch, nanRoot.watches[0]? = some watch ∧
    watch.IsQuiet nanRoot.store nanRoot.effects ∧ watch.changes = 0 ∧
    ∃ middle last settled later, (recalculate 0).run nanRoot = (.ok true, middle) ∧
      middle.watches[0]? = some settled ∧ (recalculate 0).run middle = (.ok true, last) ∧
      last.watches[0]? = some later ∧ later.changes = 2 ∧ later.value.bare = settled.value.bare := by
  have hwatched : (nanRoot.watches[0]?.any fun watch => watch.changes == 0 &&
      ((watch.expression.eval nanRoot.store).run nanRoot.effects).2.calls == nanRoot.effects.calls) = true := by
    decide +kernel
  have hfirst : ((recalculate 0).run nanRoot).1.toOption = some true := by decide +kernel
  have hsecond : ((recalculate 0).run ((recalculate 0).run nanRoot).2).1.toOption = some true := by decide +kernel
  generalize nanRoot = world at hwatched hfirst hsecond ⊢
  obtain ⟨watch, hwatch, hwatched⟩ := (Option.any_eq_true _ _).mp hwatched
  obtain ⟨hchanges, hquiet⟩ := (Bool.and_eq_true _ _).mp hwatched
  obtain ⟨first, middle, settled, second, last, later, hfirst', hsettled, hsecond', hlater, -, htwice, -⟩ :=
    recalculate_twice hwatch (eq_of_beq hquiet)
  rw [hfirst'] at hfirst hsecond
  rw [hsecond'] at hsecond
  refine ⟨watch, hwatch, eq_of_beq hquiet, eq_of_beq hchanges, middle, last, settled, later, ?_⟩
  generalize ((watch.expression.eval world.store).run world.effects).1 = outcome at htwice
  cases htwice with
  | fault | kept => cases hfirst
  | changed => cases hsecond
  | restless _ hnew _ hagain hlike =>
    subst hagain hnew
    refine ⟨hfirst', hsettled, hsecond', hlater, ?_, hlike⟩
    rw [eq_of_beq hchanges]

end Action

end LiveTemplate
