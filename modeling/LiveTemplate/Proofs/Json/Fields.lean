import LiveTemplate.Json.Basic
/-!
# Lists of fields

Fields are looked up, put in and sorted by name.  None of this looks at the values, so a function on
values may be applied before or after; and what is looked up is what was put in last.
-/

set_option autoImplicit false

namespace LiveTemplate.Json

/-- A function on the value of a field. -/
def onEntry {α β : Type} (f : α → β) (entry : String × α) : String × β := (entry.1, f entry.2)

theorem lookup_map {α β : Type} (f : α → β) (key : String) (entries : List (String × α)) :
    lookup? key (entries.map (onEntry f)) = (lookup? key entries).map f := by
  induction entries with
  | nil => rfl
  | cons entry rest ih =>
    obtain ⟨name, v⟩ := entry
    simp only [List.map_cons, onEntry, lookup?]
    split
    · rfl
    · exact ih

/-- The value may be made with the name. -/
theorem lookup_map_named {α β : Type} (f : String → α → β) (key : String)
    (entries : List (String × α)) :
    lookup? key (entries.map fun entry => (entry.1, f entry.1 entry.2))
      = (lookup? key entries).map (f key) := by
  induction entries with
  | nil => rfl
  | cons entry rest ih =>
    obtain ⟨name, v⟩ := entry
    simp only [List.map_cons, lookup?]
    split
    · next h =>
      obtain rfl : name = key := by simpa using h
      rfl
    · exact ih

theorem insertField_map {α β : Type} (f : α → β) (key : String) (value : α)
    (entries : List (String × α)) :
    insertField key (f value) (entries.map (onEntry f))
      = (insertField key value entries).map (onEntry f) := by
  induction entries with
  | nil => rfl
  | cons entry rest ih =>
    obtain ⟨name, v⟩ := entry
    simp only [List.map_cons, onEntry, insertField]
    split
    · rfl
    · split
      · rfl
      · exact congrArg _ ih

theorem sortFields_map {α β : Type} (f : α → β) (entries : List (String × α)) :
    sortFields (entries.map (onEntry f)) = (sortFields entries).map (onEntry f) := by
  unfold sortFields
  suffices h : ∀ sorted : List (String × α),
      (entries.map (onEntry f)).foldl (fun sorted field => insertField field.1 field.2 sorted)
          (sorted.map (onEntry f))
        = (entries.foldl (fun sorted field => insertField field.1 field.2 sorted) sorted).map
          (onEntry f) from h []
  induction entries with
  | nil => exact fun _ => rfl
  | cons entry rest ih =>
    intro sorted
    show (rest.map (onEntry f)).foldl _ (insertField entry.1 (f entry.2) (sorted.map (onEntry f))) = _
    rw [insertField_map]
    exact ih _

/-- What is found under a name stands there with this name. -/
theorem mem_of_lookup {α : Type} {key : String} {entries : List (String × α)} {v : α}
    (h : lookup? key entries = some v) : (key, v) ∈ entries := by
  induction entries with
  | nil => cases h
  | cons entry rest ih =>
    obtain ⟨name, w⟩ := entry
    unfold lookup? at h
    split at h
    · next hname =>
      obtain rfl : name = key := by simpa using hname
      cases h
      exact List.mem_cons_self
    · exact List.mem_cons_of_mem _ (ih h)

theorem lookup_mem {α : Type} {key : String} {entries : List (String × α)} {v : α}
    (h : lookup? key entries = some v) : ∃ entry ∈ entries, entry.2 = v :=
  ⟨(key, v), mem_of_lookup h, rfl⟩

/-- Of the entries with some of the names only these are found. -/
theorem lookup_filter {α : Type} (keeps : String → Bool) (key : String) (entries : List (String × α)) :
    lookup? key (entries.filter fun entry => keeps entry.1) = if keeps key then lookup? key entries else none := by
  induction entries with
  | nil => simp [lookup?]
  | cons entry rest ih =>
    obtain ⟨name, v⟩ := entry
    by_cases hname : name = key
    · subst hname
      cases hkeeps : keeps name <;> simp [lookup?, hkeeps, ih]
    · cases hkeeps : keeps name <;> simp [lookup?, hkeeps, hname, ih]

theorem lookup_insertField_self {α : Type} (key : String) (value : α)
    (entries : List (String × α)) : lookup? key (insertField key value entries) = some value := by
  induction entries with
  | nil => simp [insertField, lookup?]
  | cons entry rest ih =>
    obtain ⟨name, old⟩ := entry
    by_cases hname : name = key
    · simp [insertField, lookup?, hname]
    · by_cases hless : key < name
      · simp [insertField, lookup?, hname, hless]
      · simp [insertField, lookup?, hname, hless, ih]

theorem lookup_insertField_other {α : Type} {key other : String} (h : other ≠ key) (value : α)
    (entries : List (String × α)) :
    lookup? other (insertField key value entries) = lookup? other entries := by
  induction entries with
  | nil => simp [insertField, lookup?, h.symm]
  | cons entry rest ih =>
    obtain ⟨name, old⟩ := entry
    by_cases hname : name = key
    · simp [insertField, lookup?, hname, h.symm]
    · by_cases hless : key < name
      · simp [insertField, lookup?, hname, hless, h.symm]
      · simp [insertField, lookup?, hname, hless, ih]

theorem insertField_forall {α : Type} {P : α → Prop} {key : String} {value : α}
    {entries : List (String × α)} (hv : P value) (h : ∀ entry ∈ entries, P entry.2) :
    ∀ entry ∈ insertField key value entries, P entry.2 := by
  induction entries with
  | nil => simpa [insertField] using hv
  | cons entry rest ih =>
    obtain ⟨name, old⟩ := entry
    have hrest := ih fun e he => h e (List.mem_cons_of_mem _ he)
    have hold : P old := h _ List.mem_cons_self
    intro e he
    unfold insertField at he
    split at he
    · rcases List.mem_cons.mp he with rfl | he
      · exact hv
      · exact h e (List.mem_cons_of_mem _ he)
    · split at he
      · rcases List.mem_cons.mp he with rfl | he
        · exact hv
        · exact h e he
      · rcases List.mem_cons.mp he with rfl | he
        · exact hold
        · exact hrest e he

theorem sortFields_forall {α : Type} {P : α → Prop} {entries : List (String × α)}
    (h : ∀ entry ∈ entries, P entry.2) : ∀ entry ∈ sortFields entries, P entry.2 := by
  suffices hs : ∀ sorted : List (String × α), (∀ entry ∈ sorted, P entry.2) →
      ∀ entry ∈ entries.foldl (fun sorted field => insertField field.1 field.2 sorted) sorted,
        P entry.2 from hs [] fun _ he => nomatch he
  induction entries with
  | nil => exact fun _ hs => hs
  | cons entry rest ih =>
    intro sorted hs
    exact ih (fun e he => h e (List.mem_cons_of_mem _ he)) _
      (insertField_forall (h entry List.mem_cons_self) hs)

end LiveTemplate.Json
