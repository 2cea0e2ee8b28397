import LiveTemplate.Proofs.Watch.Wiring
/-!
# Writing

A write changes one binding, and has the watches recalculated that hear of it.  Every other watch
reads nothing that has changed; so it keeps its value, and the value is still what its expression
has.

A write that ends in a fault has changed the binding all the same.  It leaves old values with the
first watch whose expression has no value any more and with those told after it, and with no others.
The next write that tells them and ends well makes up for it.
-/

set_option autoImplicit false

namespace LiveTemplate

open Value

/-! ## Values that are up to date -/

namespace Watch

variable {store store' : Store} {bound : ScopeId → String → Prop} {watch : Watch}

/-- Whenever the expression is evaluated, the watch has the value already: they are equal, or else
alike, like two numbers that are not numbers. -/
def IsCurrent (store : Store) (watch : Watch) : Prop :=
  ∀ e, ∃ v e', (watch.expression.eval store).run e = (.ok v, e') ∧ e'.calls = e.calls ∧
    (watch.value.same store v = true ∨ Alike watch.value v)

/-- Evaluating the expression calls no impure function. -/
def IsQuiet (store : Store) (e : Effects) (watch : Watch) : Prop :=
  ((watch.expression.eval store).run e).2.calls = e.calls

/-- If one evaluation settles how the others end, each has a value, for the one that the watch has its
value from had one. -/
theorem Matches.again (h : watch.Matches store) {R : Value → Value → Prop} {e : Effects}
    (hsettles : ∀ f, Run.Paired (fun _ f' => f'.calls = f.calls) Run.Never R
      ((watch.expression.eval store).run e) ((watch.expression.eval store).run f)) (f : Effects) :
    ∃ quiet v b f', (watch.expression.eval store).run f = (.ok b, f') ∧ f'.calls = f.calls ∧
      R quiet v ∧ R quiet b ∧ (watch.value.same store v = true ∨ watch.value = v) := by
  obtain ⟨e₁, e₁', v, hr, hagrees⟩ := h
  have hfirst := hsettles e₁
  have hsecond := hsettles f
  rw [hr] at hfirst
  revert hfirst hsecond
  generalize (watch.expression.eval store).run e = quiet
  rcases (watch.expression.eval store).run f with ⟨outcome, f'⟩
  intro hfirst hsecond
  cases hfirst with
  | values hv _ =>
    cases hsecond with
    | values hb hcalls => exact ⟨_, v, _, f', rfl, hcalls, hv, hb, hagrees⟩
  | alone hx => exact hx.elim

theorem Matches.isCurrent (h : watch.Matches store) (hreads : ReadsOnly store bound watch.expression)
    (hplain : ∀ scope name, bound scope name → Plain store (store.seen scope name)) {e : Effects}
    (hquiet : watch.IsQuiet store e) : watch.IsCurrent store := by
  intro f
  obtain ⟨a, v, b, f', hr, hcalls, ⟨hav, -, hv⟩, ⟨hab, -⟩, hagrees⟩ :=
    h.again (hreads.settles hplain hquiet) f
  have hvb : Alike v b := hav.symm.trans hab
  refine ⟨b, f', hr, hcalls, ?_⟩
  rcases hagrees with hsame | heq
  · exact .inl ((same_alike store (.refl watch.value) hvb hv.free).symm.trans hsame)
  · exact .inr (heq ▸ hvb)

/-- Who is up to date is evaluated quietly. -/
theorem IsCurrent.quiet (h : watch.IsCurrent store) (e : Effects) : watch.IsQuiet store e := by
  obtain ⟨v, e', hr, hcalls, -⟩ := h e
  unfold IsQuiet
  rw [hr]
  exact hcalls

/-- If one evaluation of a quiet watch has a value, all of them have one. -/
theorem evaluates_of_quiet (hreads : ReadsOnly store bound watch.expression)
    (hplain : ∀ scope name, bound scope name → Plain store (store.seen scope name)) {e : Effects}
    (hquiet : watch.IsQuiet store e) (f : Effects) :
    watch.evaluates store e = watch.evaluates store f := by
  have hpair := hreads.settles hplain hquiet f
  unfold evaluates
  revert hpair
  generalize (watch.expression.eval store).run e = first, (watch.expression.eval store).run f = second
  intro hpair
  cases hpair with
  | values => rfl
  | faults => rfl
  | alone hx => exact hx.elim

/-- A watch stays up to date where its symbols find what they found. -/
theorem IsCurrent.frame (h : watch.IsCurrent store) (hcells : store.cells = store'.cells)
    (horderly : store.Orderly) (horderly' : store'.Orderly)
    (hreads : ReadsOnly store bound watch.expression)
    (hown : ∀ scope name, bound scope name → ∃ binding,
      store.ownBinding? scope name = some binding ∧ store'.ownBinding? scope name = some binding) :
    watch.IsCurrent store' := by
  have heval : watch.expression.eval store = watch.expression.eval store' := by
    refine hreads.eval_congr hcells (fun scope name hbound => ?_) fun scope name hbound => ?_
    · obtain ⟨binding, hbinding, -⟩ := hown scope name hbound
      exact horderly.plain_seen hbinding
    · obtain ⟨binding, hbinding, hbinding'⟩ := hown scope name hbound
      rw [horderly.seen_own hbinding, horderly'.seen_own hbinding']
  intro e
  obtain ⟨v, e', hr, hcalls, hagrees⟩ := h e
  refine ⟨v, e', heval ▸ hr, hcalls, hagrees.imp_left fun hsame => ?_⟩
  rw [← same_congr hcells]
  exact hsame

end Watch

namespace World

/-- Evaluating what is watched calls no impure function. -/
def Quiet (world : World) : Prop :=
  ∀ (id : WatchId) (watch : Watch), world.watches[id]? = some watch → watch.isHeld = true →
    watch.IsQuiet world.store world.effects

/-- The watches that are held are up to date, but for some. -/
def Fresh (world : World) (stale : List WatchId) : Prop :=
  ∀ (id : WatchId) (watch : Watch), world.watches[id]? = some watch → watch.isHeld = true →
    id ∉ stale → watch.IsCurrent world.store

/-- Does the expression of the watch have a value? -/
def evaluates (world : World) (id : WatchId) : Bool :=
  match world.watches[id]? with
  | some watch => watch.evaluates world.store world.effects
  | none => true

/-- The watches that a step may leave with old values: those that had them already and were not
told, and of those that were told the ones that were not reached. -/
def staleAfter {α : Type} (world : World) (result : Except Fault α) (told stale : List WatchId) :
    List WatchId :=
  match result with
  | .ok _ => stale.filter fun id => !told.contains id
  | .error _ => told.dropWhile world.evaluates ++ stale.filter fun id => !told.contains id

/-- A step that tells nobody leaves everybody as it is. -/
theorem staleAfter_nobody {α : Type} (world : World) (result : Except Fault α)
    (stale : List WatchId) : world.staleAfter result [] stale = stale := by
  cases result <;> simp [staleAfter]

theorem mem_staleAfter_of_not_told {α : Type} {world : World} {result : Except Fault α}
    {told stale : List WatchId} {id : WatchId} (htold : id ∉ told) (h : id ∈ stale) :
    id ∈ world.staleAfter result told stale := by
  cases result <;> simp [staleAfter, htold, h]

theorem mem_dropWhile_of_not {p : WatchId → Bool} {before after : List WatchId} {id : WatchId}
    (h : p id = false) : ∀ other ∈ id :: after, other ∈ (before ++ id :: after).dropWhile p := by
  intro other hother
  induction before with
  | nil => simpa [h] using hother
  | cons first rest ih =>
    rw [List.cons_append, List.dropWhile_cons]
    split
    · exact ih
    · exact List.mem_cons_of_mem _ (List.mem_append_right _ hother)

theorem mem_staleAfter_error {α : Type} {world : World} {x : Fault} {before after stale : List WatchId}
    {id other : WatchId} (h : world.evaluates id = false) (hother : other ∈ id :: after) :
    other ∈ world.staleAfter (.error x : Except Fault α) (before ++ id :: after) stale :=
  List.mem_append_left _ (mem_dropWhile_of_not h other hother)

theorem Wired.current_of_matches {world : World} (h : world.Wired) (hquiet : world.Quiet)
    {id : WatchId} {watch : Watch} (hwatch : world.watches[id]? = some watch)
    (hheld : watch.isHeld = true) (hmatches : watch.Matches world.store) :
    watch.IsCurrent world.store :=
  hmatches.isCurrent (h.hears id watch hwatch hheld) (fun _ _ hhears => h.plain_seen hhears)
    (hquiet id watch hwatch hheld)

end World

namespace Action

open Run (run_bind run_pure)
open World

variable {world world' : World} {mayWrite : BindingKind → Bool} {scope : ScopeId} {name : String}
  {value : Value} {result : Except Fault Bool}

/-- The world in which a binding has its new value, and the list of those who are to hear of it has
lost the dead. -/
def written (world : World) (owner : ScopeId) (name : String) (binding : Binding) : World :=
  { world with store := world.store.bind owner name binding }.modifyTable owner fun table =>
    table.compact world.isLive name

theorem run_notifyScope (scope : ScopeId) (name : String) (world : World) :
    (notifyScope scope name).run world =
      (recalculateAll ((world.table scope).live world.isLive name)).run
        (world.modifyTable scope fun table => table.compact world.isLive name) := by
  unfold notifyScope
  simp only [run_bind, run_get, run_set]

/-- The watches that a write tells. -/
def told (mayWrite : BindingKind → Bool) (scope : ScopeId) (name : String) (value : Value)
    (world : World) : List WatchId :=
  match world.store.owned? scope name with
  | none => []
  | some (owner, binding) =>
    if !mayWrite binding.kind then []
    else if binding.value.same world.store value then []
    else (world.table owner).live world.isLive name

/-- A write that is allowed, and of another value than the one that is there. -/
theorem run_writeIf {owner : ScopeId} {binding : Binding}
    (howned : world.store.owned? scope name = some (owner, binding))
    (hmay : mayWrite binding.kind = true) (hsame : binding.value.same world.store value = false) :
    ∃ outcome last, (recalculateAll ((world.table owner).live world.isLive name)).run
        (written world owner name ⟨value, binding.kind⟩) = (outcome, last) ∧
      (writeIf mayWrite scope name value).run world = (outcome.map fun _ => true, last) := by
  have hnotify : (notifyScope owner name).run
      { world with store := world.store.bind owner name ⟨value, binding.kind⟩ }
    = (recalculateAll ((world.table owner).live world.isLive name)).run
        (written world owner name ⟨value, binding.kind⟩) := run_notifyScope ..
  unfold writeIf
  simp only [run_bind, run_store, howned, hmay, hsame, Bool.not_true, Bool.false_eq_true, if_false, put,
    modifyStore, run_modify, hnotify]
  rcases hr : (recalculateAll ((world.table owner).live world.isLive name)).run
    (written world owner name ⟨value, binding.kind⟩) with ⟨x | u, last⟩
  · exact ⟨_, _, rfl, rfl⟩
  · exact ⟨_, _, rfl, rfl⟩

/-- A write ends in one of these ways: nobody owns the name, the writer may not write it, the value is
there already, or the value is stored and told. -/
theorem writeIf_ends (h : (writeIf mayWrite scope name value).run world = (result, world')) :
    (world.store.owned? scope name = none ∧ result = .ok false ∧ world' = world) ∨
    ∃ owner binding, world.store.owned? scope name = some (owner, binding) ∧
      ((mayWrite binding.kind = false ∧ result = .ok false ∧ world' = world) ∨
        (mayWrite binding.kind = true ∧ binding.value.same world.store value = true ∧
          result = .ok true ∧ world' = world) ∨
        (mayWrite binding.kind = true ∧ binding.value.same world.store value = false ∧
          ∃ outcome, (recalculateAll ((world.table owner).live world.isLive name)).run
              (written world owner name ⟨value, binding.kind⟩) = (outcome, world') ∧
            result = outcome.map fun _ => true)) := by
  cases howned : world.store.owned? scope name with
  | none =>
    unfold writeIf at h
    simp only [run_bind, run_store, howned, run_pure] at h
    obtain ⟨rfl, rfl⟩ := Prod.mk.inj h
    exact .inl ⟨rfl, rfl, rfl⟩
  | some found =>
    obtain ⟨owner, binding⟩ := found
    refine .inr ⟨owner, binding, rfl, ?_⟩
    cases hmay : mayWrite binding.kind with
    | false =>
      unfold writeIf at h
      simp only [run_bind, run_store, howned, hmay, Bool.not_false, if_true, run_pure] at h
      obtain ⟨rfl, rfl⟩ := Prod.mk.inj h
      exact .inl ⟨rfl, rfl, rfl⟩
    | true =>
      cases hsame : binding.value.same world.store value with
      | true =>
        unfold writeIf at h
        simp only [run_bind, run_store, howned, hmay, hsame, Bool.not_true, Bool.false_eq_true,
          if_false, if_true, run_pure] at h
        obtain ⟨rfl, rfl⟩ := Prod.mk.inj h
        exact .inr (.inl ⟨rfl, rfl, rfl, rfl⟩)
      | false =>
        obtain ⟨outcome, last, hrun, hwrite⟩ := run_writeIf howned hmay hsame
        obtain ⟨rfl, rfl⟩ := Prod.mk.inj (h.symm.trans hwrite)
        exact .inr (.inr ⟨rfl, rfl, outcome, hrun, rfl⟩)

theorem writeIf_cases (h : (writeIf mayWrite scope name value).run world = (result, world')) :
    (world' = world ∧ told mayWrite scope name value world = [] ∧ ∃ done, result = .ok done) ∨
    ∃ owner binding, told mayWrite scope name value world =
        (world.table owner).live world.isLive name ∧
      world.store.owned? scope name = some (owner, binding) ∧ mayWrite binding.kind = true ∧
      ∃ outcome, (recalculateAll ((world.table owner).live world.isLive name)).run
          (written world owner name ⟨value, binding.kind⟩) = (outcome, world') ∧
        result = outcome.map fun _ => true := by
  unfold told
  rcases writeIf_ends h with ⟨howned, rfl, rfl⟩ | ⟨owner, binding, howned, hends⟩
  · exact .inl ⟨rfl, by rw [howned], false, rfl⟩
  · rw [howned]
    rcases hends with ⟨hmay, rfl, rfl⟩ | ⟨hmay, hsame, rfl, rfl⟩ | ⟨hmay, hsame, hends⟩
    · exact .inl ⟨rfl, by simp [hmay], false, rfl⟩
    · exact .inl ⟨rfl, by simp [hmay, hsame], true, rfl⟩
    · exact .inr ⟨owner, binding, by simp [hmay, hsame], rfl, hmay, hends⟩

/-- What a step of the world keeps. -/
structure Keeps {α : Type} (result : Except Fault α) (world world' : World) : Prop where
  wired : world'.Wired
  counts : ∀ (id : WatchId) (watch : Watch), world.watches[id]? = some watch →
    ∃ later : Watch, world'.watches[id]? = some later ∧ watch.changes ≤ later.changes ∧
      later.changes ≤ watch.changes + 1
  fault : ∀ x, result = .error x → x.IsOverflow

theorem counts_refl (world : World) (id : WatchId) (watch : Watch)
    (h : world.watches[id]? = some watch) : ∃ later : Watch, world.watches[id]? = some later ∧
      watch.changes ≤ later.changes ∧ later.changes ≤ watch.changes + 1 :=
  ⟨watch, h, Nat.le_refl _, Nat.le_succ _⟩

theorem wired_written (h : world.Wired) (owner : ScopeId) (name : String) {binding : Binding}
    (hplain : Plain world.store binding.value) : (written world owner name binding).Wired :=
  (h.bind owner name hplain).compact owner name

theorem recalculated_written (h : world.Wired) {owner : ScopeId} {binding : Binding}
    {outcome : Except Fault Unit}
    (hr : (recalculateAll ((world.table owner).live world.isLive name)).run
      (written world owner name binding) = (outcome, world')) :
    Recalculated ((world.table owner).live world.isLive name) outcome
      (written world owner name binding) world' :=
  recalculateAll_recalculated (h.tidy_table owner).live_nodup hr

theorem writeIf_keeps (hwired : world.Wired) (hplain : Plain world.store value)
    (h : (writeIf mayWrite scope name value).run world = (result, world')) :
    Keeps result world world' := by
  rcases writeIf_cases h with ⟨rfl, -, done, rfl⟩ | ⟨owner, binding, -, -, -, outcome, hr, rfl⟩
  · exact ⟨hwired, counts_refl world', nofun⟩
  · have hrec := recalculated_written hwired hr
    refine ⟨(wired_written hwired owner name hplain).recalculated hrec, ?_, ?_⟩
    · intro id watch hwatch
      obtain ⟨later, hlater, hfollows⟩ := hrec.each id watch hwatch
      exact ⟨later, hlater, hfollows.changes_le, hfollows.le_changes⟩
    · intro x hx
      cases outcome with
      | ok u => cases hx
      | error y =>
        obtain rfl : y = x := by injection hx
        exact (hrec.broken y rfl).1

theorem held_of_told {ids : List WatchId} {owner : ScopeId} {binding : Binding}
    {outcome : Except Fault Unit}
    (hrec : Recalculated ids outcome (written world owner name binding) world') {id : WatchId}
    (htold : id ∈ (world.table owner).live world.isLive name) {later : Watch}
    (hlater : world'.watches[id]? = some later) : later.isHeld = true := by
  have hlive : world.isLive id = true := (List.mem_filter.mp htold).2
  unfold World.isLive at hlive
  cases hwatch : world.watches[id]? with
  | none =>
    rw [hwatch] at hlive
    cases hlive
  | some watch =>
    rw [hwatch] at hlive
    obtain ⟨later', hlater', hfollows⟩ := hrec.each id watch hwatch
    obtain rfl : later' = later := Option.some.inj (hlater'.symm.trans hlater)
    exact hfollows.isHeld.trans hlive

/-- Whoever is told is up to date, unless it was not reached. -/
theorem current_of_told (hwired : world.Wired) {owner : ScopeId} {kind : BindingKind}
    {outcome : Except Fault Unit}
    (hr : (recalculateAll ((world.table owner).live world.isLive name)).run
      (written world owner name ⟨value, kind⟩) = (outcome, world')) (hwired' : world'.Wired)
    (hquiet : world'.Quiet) {id : WatchId} (htold : id ∈ (world.table owner).live world.isLive name)
    {later : Watch} (hlater : world'.watches[id]? = some later) {stale : List WatchId} (hstale : id ∉ world'.staleAfter (outcome.map fun _ => true)
      ((world.table owner).live world.isLive name) stale) : later.IsCurrent world'.store := by
  have hrec := recalculated_written hwired hr
  refine hwired'.current_of_matches hquiet hlater (held_of_told hrec htold hlater) ?_
  rw [hrec.store]
  cases outcome with
  | ok u => exact hrec.done u rfl id htold later hlater
  | error x =>
    obtain ⟨-, before, failed, after, hids, hbefore, watch, e, hwatch, hnone⟩ := hrec.broken x rfl
    -- the evaluation that failed fails in the present effects, too
    have hfailed : world'.evaluates failed = false := by
      have hheld' : watch.isHeld = true :=
        held_of_told hrec (hids ▸ List.mem_append_right _ List.mem_cons_self) hwatch
      rw [← hrec.store] at hnone
      unfold World.evaluates
      rw [hwatch, ← hnone]
      exact Watch.evaluates_of_quiet (hwired'.hears failed watch hwatch hheld')
        (fun _ _ hhears => hwired'.plain_seen hhears) (hquiet failed watch hwatch hheld') e
    rw [hids] at htold hstale
    rcases List.mem_append.mp htold with hmem | hmem
    · exact hbefore id hmem later hlater
    · exact absurd (mem_staleAfter_error hfailed hmem) hstale

/-- Whoever is not told stays up to date. -/
theorem current_of_not_told (hwired : world.Wired) {owner : ScopeId} {binding : Binding}
    {outcome : Except Fault Unit}
    (hrec : Recalculated ((world.table owner).live world.isLive name) outcome
      (written world owner name binding) world') (horderly : world'.store.Orderly) {id : WatchId}
    {watch : Watch} (hwatch : world.watches[id]? = some watch) (hheld : watch.isHeld = true)
    (htold : id ∉ (world.table owner).live world.isLive name) (hcurrent : watch.IsCurrent world.store) :
    watch.IsCurrent world'.store := by
  refine hcurrent.frame ?_ hwired.orderly horderly (hwired.hears id watch hwatch hheld) ?_
  · rw [hrec.store]
    rfl
  · rintro other n ⟨⟨found, hown⟩, hhears⟩
    refine ⟨found, hown, ?_⟩
    rw [hrec.store]
    refine (Store.ownBinding?_bind_other world.store _ ?_).trans hown
    by_cases hother : other = owner
    · subst hother
      refine .inr fun hn => htold (WatchTable.mem_live (hn ▸ hhears) ?_)
      simp [World.isLive, hwatch, hheld]
    · exact .inl hother

/-- **A write leaves the values up to date**, but for those of the watches that it did not reach. -/
theorem writeIf_fresh (hwired : world.Wired) (hplain : Plain world.store value)
    {stale : List WatchId} (hfresh : world.Fresh stale)
    (h : (writeIf mayWrite scope name value).run world = (result, world')) (hquiet : world'.Quiet) :
    world'.Fresh (world'.staleAfter result (told mayWrite scope name value world) stale) := by
  have hwired' := (writeIf_keeps hwired hplain h).wired
  rcases writeIf_cases h with ⟨rfl, htold, done, rfl⟩ | ⟨owner, binding, htold, -, -, outcome, hr, rfl⟩
  · rw [htold, staleAfter_nobody]
    exact hfresh
  · rw [htold]
    have hrec := recalculated_written hwired hr
    intro id later hlater hheld hstale
    by_cases hmem : id ∈ (world.table owner).live world.isLive name
    · exact current_of_told hwired hr hwired' hquiet hmem hlater hstale
    · have hwatch : world.watches[id]? = some later := (hrec.others id hmem).symm.trans hlater
      have hcurrent : later.IsCurrent world.store :=
        hfresh id later hwatch hheld fun hold => hstale (mem_staleAfter_of_not_told hmem hold)
      exact current_of_not_told hwired hrec hwired'.orderly hwatch hheld hmem hcurrent

end Action

end LiveTemplate
