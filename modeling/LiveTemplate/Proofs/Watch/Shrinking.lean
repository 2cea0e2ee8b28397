import LiveTemplate.Proofs.Watch.Table
/-!
# Tables that shrink

A table loses dead watches in two ways: those of one name when the name is looked up, and all of them
when it is pruned.  Both go through the lists, make each of them shorter by some rule, and then drop the
lists that have become empty.  So what is said of one such passage holds for both.

A table is sound if each name has one list, and no list is empty.  Then dropping empty lists uncovers
nothing, and what is listed under a name is its list, made shorter by the rule.
-/

set_option autoImplicit false

namespace LiveTemplate

namespace WatchTable

variable {isLive : WatchId → Bool} {name n : String} {id : WatchId} {table : WatchTable}

/-- The names of the lists. -/
def names (table : WatchTable) : List String := table.map Prod.fst

/-- Each name has one list, and no list is empty. -/
structure Sound (table : WatchTable) : Prop where
  names : table.names.Nodup
  full : ∀ entry ∈ table, entry.2 ≠ []

theorem sound_empty : empty.Sound := ⟨List.nodup_nil, fun _ he => nomatch he⟩

theorem listed_of_not_mem (h : n ∉ table.names) : table.listed n = [] := by
  induction table with
  | nil => rfl
  | cons entry rest ih =>
    obtain ⟨other, watches⟩ := entry
    have hother : other ≠ n := fun heq => h (heq ▸ List.mem_cons_self)
    simp only [listed, beq_iff_eq, hother, if_false]
    exact ih fun hmem => h (List.mem_cons_of_mem _ hmem)

/-! ## Adding -/

theorem mem_names_add : n ∈ (table.add name id).names ↔ n ∈ table.names ∨ n = name := by
  induction table with
  | nil => simp [add, names]
  | cons entry rest ih =>
    obtain ⟨other, watches⟩ := entry
    unfold names at ih ⊢
    by_cases hother : other = name
    · simp only [add, hother, beq_self_eq_true, if_true, List.map_cons, List.mem_cons]
      exact ⟨.inl, fun h => h.elim (fun hn => hn) .inl⟩
    · simp only [add, beq_iff_eq, hother, if_false, List.map_cons, List.mem_cons, ih, or_assoc]

theorem Sound.add (h : table.Sound) (name : String) (id : WatchId) : (table.add name id).Sound := by
  induction table with
  | nil => exact ⟨by simp [WatchTable.names, WatchTable.add], by simp [WatchTable.add]⟩
  | cons entry rest ih =>
    obtain ⟨other, watches⟩ := entry
    obtain ⟨hother, hnames⟩ := List.nodup_cons.mp h.names
    have hrest : Sound rest := ⟨hnames, fun e he => h.full e (List.mem_cons_of_mem _ he)⟩
    unfold WatchTable.add
    split
    · refine ⟨h.names, fun e he => ?_⟩
      rcases List.mem_cons.mp he with rfl | he
      · simp
      · exact hrest.full e he
    · next hne =>
      refine ⟨List.nodup_cons.mpr ⟨fun hmem => ?_, (ih hrest).names⟩, fun e he => ?_⟩
      · rcases mem_names_add.mp hmem with hmem | rfl
        · exact hother hmem
        · simp at hne
      · rcases List.mem_cons.mp he with rfl | he
        · exact h.full _ List.mem_cons_self
        · exact (ih hrest).full e he

/-- One more watch is there, wherever its list stands. -/
theorem watches_add (name : String) (id : WatchId) (table : WatchTable) :
    (table.add name id).watches.Perm (table.watches ++ [id]) := by
  induction table with
  | nil => exact .refl _
  | cons entry rest ih =>
    obtain ⟨other, watches⟩ := entry
    unfold WatchTable.watches at ih ⊢
    by_cases hother : other = name
    · simp only [add, hother, beq_self_eq_true, if_true, List.flatMap_cons, List.append_assoc]
      exact List.perm_append_comm.append_left watches
    · simp only [add, beq_iff_eq, hother, if_false, List.flatMap_cons, List.append_assoc]
      exact ih.append_left watches

/-! ## Making lists shorter -/

/-- The table with each list made shorter by a rule, and without the lists that are empty then. -/
def shorten (rule : String → List WatchId → List WatchId) (table : WatchTable) : WatchTable :=
  dropEmpty (table.map fun entry => (entry.1, rule entry.1 entry.2))

theorem compact_eq_shorten (isLive : WatchId → Bool) (name : String) (table : WatchTable) :
    table.compact isLive name =
      table.shorten fun other watches => if other == name then watches.filter isLive else watches :=
  rfl

theorem prune_eq_shorten (isLive : WatchId → Bool) (table : WatchTable) :
    table.prune isLive = table.shorten fun _ watches => watches.filter isLive := rfl

section

variable {rule : String → List WatchId → List WatchId}

theorem shorten_cons (other : String) (watches : List WatchId) (rest : WatchTable) :
    shorten rule ((other, watches) :: rest) =
      if rule other watches = [] then shorten rule rest
      else (other, rule other watches) :: shorten rule rest := by
  unfold shorten dropEmpty
  rw [List.map_cons, List.filter_cons]
  by_cases h : rule other watches = [] <;> simp [h]

theorem names_shorten (rule : String → List WatchId → List WatchId) (table : WatchTable) :
    (table.shorten rule).names.Sublist table.names := by
  induction table with
  | nil => exact .refl _
  | cons entry rest ih =>
    obtain ⟨other, watches⟩ := entry
    rw [shorten_cons]
    split
    · exact ih.cons other
    · exact ih.cons_cons other

theorem Sound.shorten (h : table.Sound) (rule : String → List WatchId → List WatchId) :
    (table.shorten rule).Sound where
  names := (names_shorten rule table).nodup h.names
  full entry he := by simpa using (List.mem_filter.mp he).2

/-- Making lists shorter once more by the same rule changes nothing. -/
theorem shorten_shorten (hrule : ∀ other watches, rule other (rule other watches) = rule other watches)
    (table : WatchTable) : (table.shorten rule).shorten rule = table.shorten rule := by
  induction table with
  | nil => rfl
  | cons entry rest ih =>
    obtain ⟨other, watches⟩ := entry
    rw [shorten_cons]
    split
    · exact ih
    · next hfull => rw [shorten_cons, hrule, if_neg hfull, ih]

/-- **What is listed is made shorter by the rule**, and nothing else changes. -/
theorem Sound.listed_shorten (h : table.Sound) (hnil : rule n [] = []) :
    (table.shorten rule).listed n = rule n (table.listed n) := by
  induction table with
  | nil => exact hnil.symm
  | cons entry rest ih =>
    obtain ⟨other, watches⟩ := entry
    obtain ⟨hother, hnames⟩ := List.nodup_cons.mp h.names
    have hrest := ih ⟨hnames, fun e he => h.full e (List.mem_cons_of_mem _ he)⟩
    rw [shorten_cons]
    by_cases hn : other = n
    · subst hn
      simp only [listed, beq_self_eq_true, if_true]
      split
      · next hempty =>
        -- the list is dropped, and no other list of this name comes to light
        rw [hempty]
        exact listed_of_not_mem fun hmem => hother ((names_shorten rule rest).subset hmem)
      · simp [listed]
    · simp only [listed, beq_iff_eq, hn, if_false]
      split
      · exact hrest
      · simpa only [listed, beq_iff_eq, hn, if_false] using hrest

/-- A watch that is still in some list was there before. -/
theorem mem_watches_shorten (hrule : ∀ other watches, ∀ id ∈ rule other watches, id ∈ watches)
    (h : id ∈ (table.shorten rule).watches) : id ∈ table.watches := by
  obtain ⟨entry, he, hid⟩ := List.mem_flatMap.mp h
  obtain ⟨old, hold, rfl⟩ := List.mem_map.mp (List.mem_filter.mp he).1
  exact List.mem_flatMap.mpr ⟨old, hold, hrule _ _ id hid⟩

/-- If the rule goes by single watches, all of them together are chosen as in each list. -/
theorem filter_watches_shorten {p : WatchId → Bool}
    (hrule : ∀ other watches, (rule other watches).filter p = watches.filter p) :
    (table.shorten rule).watches.filter p = table.watches.filter p := by
  induction table with
  | nil => rfl
  | cons entry rest ih =>
    obtain ⟨other, watches⟩ := entry
    have hhead := hrule other watches
    rw [shorten_cons]
    unfold WatchTable.watches at ih ⊢
    split
    · next hempty =>
      rw [hempty] at hhead
      simp only [List.flatMap_cons, List.filter_append, ih, ← hhead, List.filter_nil, List.nil_append]
    · simp only [List.flatMap_cons, List.filter_append, ih, hhead]

end

/-! ## Looking up and pruning -/

theorem Sound.compact (h : table.Sound) (isLive : WatchId → Bool) (name : String) :
    (table.compact isLive name).Sound := by
  rw [compact_eq_shorten]
  exact h.shorten _

theorem Sound.prune (h : table.Sound) (isLive : WatchId → Bool) : (table.prune isLive).Sound := by
  rw [prune_eq_shorten]
  exact h.shorten _

theorem Sound.listed_compact (h : table.Sound) (isLive : WatchId → Bool) (name n : String) :
    (table.compact isLive name).listed n =
      if n = name then table.live isLive n else table.listed n := by
  rw [compact_eq_shorten, h.listed_shorten (by split <;> rfl)]
  by_cases hn : n = name <;> simp [hn, live]

theorem Sound.listed_prune (h : table.Sound) (isLive : WatchId → Bool) (n : String) :
    (table.prune isLive).listed n = table.live isLive n := by
  rw [prune_eq_shorten, h.listed_shorten rfl]
  rfl

/-- Pruning leaves the live watches, in the order in which they were. -/
theorem watches_prune (isLive : WatchId → Bool) (table : WatchTable) :
    (table.prune isLive).watches = table.watches.filter isLive := by
  induction table with
  | nil => rfl
  | cons entry rest ih =>
    obtain ⟨other, watches⟩ := entry
    rw [prune_eq_shorten] at ih ⊢
    rw [shorten_cons]
    unfold WatchTable.watches at ih ⊢
    split
    · next hempty => rw [ih, List.flatMap_cons, List.filter_append, hempty, List.nil_append]
    · rw [List.flatMap_cons, ih, List.flatMap_cons, List.filter_append]

/-- Pruning takes out the dead. -/
theorem length_sub_prune (isLive : WatchId → Bool) (table : WatchTable) :
    table.watches.length - (table.prune isLive).watches.length =
      table.watches.countP fun id => !isLive id := by
  have htotal := List.length_eq_countP_add_countP isLive (l := table.watches)
  have hdead : (table.watches.countP fun id => decide ¬isLive id = true) =
      table.watches.countP fun id => !isLive id := by simp
  rw [watches_prune, ← List.countP_eq_length_filter, htotal, hdead]
  exact Nat.add_sub_cancel_left ..

/-- Pruning once more changes nothing. -/
theorem prune_prune (isLive : WatchId → Bool) (table : WatchTable) :
    (table.prune isLive).prune isLive = table.prune isLive := by
  rw [prune_eq_shorten, prune_eq_shorten]
  exact shorten_shorten (fun _ watches => by simp) table

theorem filter_watches_compact (isLive : WatchId → Bool) (name : String) (table : WatchTable) :
    (table.compact isLive name).watches.filter isLive = table.watches.filter isLive := by
  rw [compact_eq_shorten]
  refine filter_watches_shorten fun other watches => ?_
  split
  · simp
  · rfl

theorem mem_watches_compact (h : id ∈ (table.compact isLive name).watches) : id ∈ table.watches := by
  rw [compact_eq_shorten] at h
  refine mem_watches_shorten (fun other watches id hid => ?_) h
  split at hid
  · exact (List.mem_filter.mp hid).1
  · exact hid

end WatchTable

end LiveTemplate
