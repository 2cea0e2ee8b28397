import LiveTemplate.Watch.World
/-!
# Who is listed

A table is asked one thing: who is listed under a name.  Adding a watch lists it under its name and
changes nothing else; and when dead watches leave the table, every watch that lives stays.

A table is tidy if it lists no watch twice under one name, and only watches that there are.
-/

set_option autoImplicit false

namespace LiveTemplate

namespace WatchTable

variable {isLive : WatchId → Bool} {name n : String} {id watch : WatchId} {table : WatchTable}

theorem listed_add (name : String) (id : WatchId) (table : WatchTable) (n : String) :
    (table.add name id).listed n = if n = name then table.listed n ++ [id] else table.listed n := by
  induction table with
  | nil => by_cases hn : name = n <;> simp [add, listed, hn, Ne.symm]
  | cons entry rest ih =>
    obtain ⟨other, watches⟩ := entry
    by_cases hother : other = name
    · by_cases hn : name = n <;> simp [add, listed, hother, hn, Ne.symm]
    · by_cases hn : other = n
      · have hne : n ≠ name := fun h => hother (hn.trans h)
        simp [add, listed, hn, hne]
      · simp [add, listed, hother, hn, ih]

theorem mem_listed_add :
    id ∈ (table.add name watch).listed n ↔ id ∈ table.listed n ∨ (n = name ∧ id = watch) := by
  rw [listed_add]
  split <;> simp [*]

/-- Who lives stays listed. -/
theorem mem_listed_compact (h : id ∈ table.listed n) (hlive : isLive id = true) :
    id ∈ (table.compact isLive name).listed n := by
  unfold compact dropEmpty
  induction table with
  | nil => cases h
  | cons entry rest ih =>
    obtain ⟨other, watches⟩ := entry
    -- the list under the name in question is not empty, and so it is not dropped
    have hkept : id ∈ watches → id ∈ if other == name then watches.filter isLive else watches := by
      intro hid
      split
      · exact List.mem_filter.mpr ⟨hid, hlive⟩
      · exact hid
    simp only [List.map_cons, List.filter_cons]
    revert hkept
    generalize (if other == name then watches.filter isLive else watches) = kept
    intro hkept
    by_cases hn : other = n
    · have hmem : id ∈ kept := hkept (by simpa [listed, hn] using h)
      have hfull : (!kept.isEmpty) = true := by simpa using List.ne_nil_of_mem hmem
      rw [if_pos hfull]
      simpa [listed, hn] using hmem
    · have hrest := ih (by simpa [listed, hn] using h)
      split
      · simpa only [listed, beq_iff_eq, hn, if_false] using hrest
      · exact hrest

theorem mem_live (h : id ∈ table.listed n) (hlive : isLive id = true) :
    id ∈ table.live isLive n := List.mem_filter.mpr ⟨h, hlive⟩

/-! ## Tidy tables -/

/-- No watch is listed twice under one name, and all of them are among the first ones. -/
def Tidy (count : Nat) (table : WatchTable) : Prop :=
  ∀ entry ∈ table, entry.2.Nodup ∧ ∀ id ∈ entry.2, id < count

variable {count : Nat}

theorem Tidy.listed (h : table.Tidy count) :
    (table.listed n).Nodup ∧ ∀ id ∈ table.listed n, id < count := by
  induction table with
  | nil => simp [WatchTable.listed]
  | cons entry rest ih =>
    obtain ⟨other, watches⟩ := entry
    by_cases hn : other = n
    · simpa [WatchTable.listed, hn] using h (other, watches) List.mem_cons_self
    · simpa [WatchTable.listed, hn] using ih fun e he => h e (List.mem_cons_of_mem _ he)

theorem Tidy.live_nodup (h : table.Tidy count) : (table.live isLive n).Nodup :=
  h.listed.1.filter _

theorem Tidy.mono {count' : Nat} (h : table.Tidy count) (hle : count ≤ count') :
    table.Tidy count' :=
  fun entry he => ⟨(h entry he).1, fun id hid => Nat.lt_of_lt_of_le ((h entry he).2 id hid) hle⟩

theorem Tidy.add (h : table.Tidy count) (hlt : watch < count) (hnew : watch ∉ table.listed name) :
    (table.add name watch).Tidy count := by
  induction table with
  | nil =>
    intro entry he
    obtain rfl : entry = (name, [watch]) := by simpa [WatchTable.add] using he
    exact ⟨by simp, fun id hid => by simpa [List.mem_singleton.mp hid] using hlt⟩
  | cons entry rest ih =>
    obtain ⟨other, watches⟩ := entry
    obtain ⟨hnodup, hall⟩ := h (other, watches) List.mem_cons_self
    have hrest : Tidy count rest := fun e he => h e (List.mem_cons_of_mem _ he)
    unfold WatchTable.add
    intro e he
    by_cases hother : other = name
    · have hnew : watch ∉ watches := by simpa [WatchTable.listed, hother] using hnew
      rw [if_pos (by simpa using hother)] at he
      rcases List.mem_cons.mp he with rfl | he
      · constructor
        · exact List.nodup_append.mpr ⟨hnodup, by simp, by
            rintro id hid _ hwatch rfl
            exact hnew (List.mem_singleton.mp hwatch ▸ hid)⟩
        · intro id hid
          rcases List.mem_append.mp hid with hid | hid
          · exact hall id hid
          · exact List.mem_singleton.mp hid ▸ hlt
      · exact hrest e he
    · have hnew : watch ∉ WatchTable.listed name rest := by
        simpa [WatchTable.listed, hother] using hnew
      rw [if_neg (by simpa using hother)] at he
      rcases List.mem_cons.mp he with rfl | he
      · exact ⟨hnodup, hall⟩
      · exact ih hrest hnew e he

theorem Tidy.compact (h : table.Tidy count) : (table.compact isLive name).Tidy count := by
  intro entry he
  obtain ⟨⟨other, watches⟩, hmem, rfl⟩ := List.mem_map.mp (List.mem_filter.mp he).1
  obtain ⟨hnodup, hall⟩ := h _ hmem
  dsimp only
  split
  · exact ⟨hnodup.filter _, fun id hid => hall id (List.mem_filter.mp hid).1⟩
  · exact ⟨hnodup, hall⟩

end WatchTable

end LiveTemplate
