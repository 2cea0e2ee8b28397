import LiveTemplate.Proofs.Value.Comparison
/-!
# What equals itself

Of the values that are made as values are, some differ from themselves.  There are three reasons for it: a
number that is none, something opaque that is no container and has no identity to be compared by, and a
container that holds itself.  Each may be in the value, or deep in its parts.

That a value equals itself if nothing in it differs from itself is `same_of_not_differs`.  The converse needs
no bound on the depth: an expansion that equals itself has been opened to the end, so its parts are the
expansions of all that the value looks at.  And since an expansion is a finite tree, the value cannot lead
back to itself.
-/

set_option autoImplicit false

namespace LiveTemplate

/-! ## Doubles -/

theorem isNaN_of_beq_self {x : Float} (h : (x == x) = true) : x.isNaN = false := by
  rw [Float.beq_self_iff] at h
  rw [Float.isNaN_eq_decide_eq_nan]
  exact decide_eq_false h

theorem isNaN_of_beq_doubles_self {xs : List Float} (h : (xs == xs) = true) : ∀ x ∈ xs, x.isNaN = false := by
  induction xs with
  | nil => nofun
  | cons x rest ih =>
    rw [List.cons_beq_cons, Bool.and_eq_true] at h
    intro y hy
    rcases List.mem_cons.mp hy with rfl | hy
    · exact isNaN_of_beq_self h.1
    · exact ih h.2 y hy

theorem Styling.isNaN_of_same_self {a : Styling} (h : a.same a = true) : ∀ x ∈ a.numbers, x.isNaN = false := by
  cases a with
  | rect r =>
    simp only [same, Bool.and_eq_true] at h
    obtain ⟨⟨⟨hx, hy⟩, hwidth⟩, hheight⟩ := h
    simp only [numbers, List.forall_mem_cons]
    exact ⟨isNaN_of_beq_self hx, isNaN_of_beq_self hy, isNaN_of_beq_self hwidth, isNaN_of_beq_self hheight,
      List.forall_mem_nil _⟩
  | radii values => exact isNaN_of_beq_doubles_self h
  | transform matrix => exact isNaN_of_beq_doubles_self h
  | gradient g =>
    simp only [same, Bool.and_eq_true] at h
    obtain ⟨⟨⟨-, hangle⟩, -⟩, hinputs⟩ := h
    exact List.forall_mem_cons.mpr ⟨isNaN_of_beq_self hangle, isNaN_of_beq_doubles_self hinputs⟩
  | media m =>
    simp only [same, Bool.and_eq_true] at h
    obtain ⟨⟨⟨-, hduration⟩, -⟩, hoffset⟩ := h
    simp only [numbers, List.forall_mem_cons]
    exact ⟨isNaN_of_beq_self hduration, isNaN_of_beq_self hoffset, List.forall_mem_nil _⟩
  | styledText raw => exact List.forall_mem_nil _

namespace Value

open Relation (ReflTransGen TransGen)
open Json (onEntry)

variable {store : Store} {a v w x : Value} {depth : Nat}

/-! ## Expanded values -/

/-- The parts of an expanded value that equals itself equal themselves. -/
theorem sameExpanded_part
    (hkeys : ∀ entries, a.fixedEntries? = some entries → (entries.map fun entry => entry.1).Nodup)
    (hsame : sameExpanded a a = true) (hx : IsPart x a) : sameExpanded x x = true := by
  cases hx with
  | item hitems hx =>
    rw [sameExpanded_of_fixedItems hitems, hitems] at hsame
    obtain ⟨i, hi, rfl⟩ := List.getElem_of_mem hx
    exact (sameItems_iff.mp hsame).2 i hi hi
  | entry hentries hx =>
    rw [sameExpanded_of_fixedEntries hentries, hentries] at hsame
    obtain ⟨y, hlookup, hy⟩ := foundIn_iff.mp (Bool.and_eq_true_iff.mp hsame).2 _ hx
    rw [Json.lookup_of_distinct (hkeys _ hentries) hx] at hlookup
    cases hlookup
    exact hy
  | property hx =>
    simp only [sameExpanded, Bool.and_eq_true] at hsame
    obtain ⟨i, hi, rfl⟩ := List.getElem_of_mem hx
    exact ((sameEntries_iff.mp hsame.2).2 i hi hi).2

/-- An expanded value that equals itself has numbers only. -/
theorem isNaN_of_sameExpanded_self (hsame : sameExpanded a a = true) : ∀ x ∈ a.numbers, x.isNaN = false := by
  cases a with
  | number y | absolute y | relative y =>
    intro x hx
    obtain rfl := List.mem_singleton.mp hx
    exact isNaN_of_beq_self hsame
  | styling ref value => exact Styling.isNaN_of_same_self hsame
  | _ => nofun

/-! ## What differs from itself -/

theorem kind_expandedTo (hmade : v.WellMade store) : (expandedTo store depth v).kind = v.kind := by
  cases v with
  | view ref document path =>
    have hcontainer := hmade.shows ref document path rfl
    rw [expandedTo_view, kind]
    cases hshown : shown document path <;> rw [hshown] at hcontainer <;> first | rfl | cases hcontainer
  | _ => cases depth <;> rfl

/-- A container that equals itself shows what is in it. -/
theorem shows_of_sameExpanded_self (hsame : sameExpanded a a = true) :
    (a.kind = .array → ∃ items, a.fixedItems? = some items) ∧
      (a.kind = .map → ∃ entries, a.fixedEntries? = some entries) := by
  generalize hb : a = b at hsame
  have hagree := agree_of_same hsame
  subst hb
  cases hagree with
  | items hitems =>
    rw [kind_of_fixedItems hitems]
    exact ⟨fun _ => ⟨_, hitems⟩, nofun⟩
  | entries hentries =>
    rw [kind_of_fixedEntries hentries]
    exact ⟨nofun, fun _ => ⟨_, hentries⟩⟩
  | identity _ hcompares => constructor <;> intro hkind <;> rw [hkind] at hcompares <;> cases hcompares
  | @styling _ _ value => cases value <;> exact ⟨nofun, nofun⟩
  | _ => exact ⟨nofun, nofun⟩

theorem kind_of_mem_items (h : w ∈ v.items store) : v.kind = .array := by
  cases v with
  | array | mutableArray => rfl
  | view ref document path =>
    rw [items] at h
    rw [kind]
    cases hshown : shown document path with
    | array values => rfl
    | _ => simp [hshown] at h
  | _ => cases h

/-- An expansion has been opened to the end if it equals itself: what the value looks at is expanded in it. -/
theorem exists_isPart (hmade : v.WellMade store) (hw : LooksAt store v w)
    (hsame : sameExpanded (expandedTo store depth v) (expandedTo store depth v) = true) :
    ∃ depth', IsPart (expandedTo store depth' w) (expandedTo store depth v) := by
  have hkind : (expandedTo store depth v).kind = v.kind := kind_expandedTo hmade
  cases hw with
  | item hw =>
    obtain ⟨items, hitems⟩ := (shows_of_sameExpanded_self hsame).1 (hkind.trans (kind_of_mem_items hw))
    obtain ⟨depth', -, rfl⟩ := fixedItems_expandedTo hitems
    exact ⟨depth', .item hitems (List.mem_map_of_mem hw)⟩
  | entry hmap hentry =>
    obtain ⟨entries, hentries⟩ := (shows_of_sameExpanded_self hsame).2 (hkind.trans hmap)
    obtain ⟨-, depth', -, rfl⟩ := fixedEntries_expandedTo hmade.keys hentries
    exact ⟨depth', .entry hentries (List.mem_map_of_mem hentry)⟩
  | @property ref name entry properties hfilter hentry =>
    subst hfilter
    rw [expandedTo_filter]
    have hexpanded : onEntry (expandedTo store depth) entry ∈ properties.map (onEntry (expandedTo store depth)) :=
      List.mem_map_of_mem hentry
    exact ⟨depth, .property hexpanded⟩

theorem not_same_unknown {ref : Ref} {kind : Kind} {label : String} (harray : kind ≠ .array) (hmap : kind ≠ .map)
    (hcompares : kind.comparesByIdentity = false) : sameExpanded (.handle ref kind label) w = false := by
  unfold sameExpanded
  cases kind with
  | array => exact absurd rfl harray
  | map => exact absurd rfl hmap
  | _ => simp [hcompares]

/-- Nothing that a value involves differs from itself if the expansion of the value equals itself. -/
theorem not_differs_of_same (hsame : sameExpanded (expandedTo store depth v) (expandedTo store depth v) = true)
    (hmade : ∀ w, Involves store v w → w.WellMade store) (hw : Involves store v w) : ¬w.Differs store := by
  suffices hall : ∀ a depth v, a = expandedTo store depth v → sameExpanded a a = true →
      (∀ w, Involves store v w → w.WellMade store) → ∀ w, Involves store v w → ¬w.Differs store from
    hall _ depth v rfl hsame hmade w hw
  intro a
  induction a using part_induction with
  | h a ih =>
    rintro depth v rfl hsame hmade
    have hself := hmade v .refl
    -- whatever is looked at has a part of the expansion for itself
    have hinner : ∀ x, LooksAt store v x → ∀ w, Involves store x w → ¬w.Differs store := by
      intro x hx w hw
      obtain ⟨depth', hpart⟩ := exists_isPart hself hx hsame
      have hpart' := sameExpanded_part (nodup_fixedEntries hself) hsame hpart
      exact ih _ hpart depth' x rfl hpart' (fun y hy => hmade y (hy.head hx)) w hw
    intro w hw
    rcases hw.cases_head with rfl | ⟨x, hx, hw⟩
    · intro hdiffers
      cases hdiffers with
      | number hx hnan =>
        have hnumbers : (expandedTo store depth v).numbers = v.numbers := numbers_expandedTo hself
        rw [← hnumbers] at hx
        rw [isNaN_of_sameExpanded_self hsame _ hx] at hnan
        cases hnan
      | @unknown ref kind label harray hmap hcompares =>
        have hexpanded : expandedTo store depth (.handle ref kind label) = .handle ref kind label := by
          cases depth <;> rfl
        rw [hexpanded, not_same_unknown harray hmap hcompares] at hsame
        cases hsame
      | endless hloop =>
        obtain ⟨x, hx, hback⟩ := TransGen.head'_iff.mp hloop
        exact hinner x hx v hback (.endless hloop)
    · exact hinner x hx w hw

/-- **A value equals itself exactly if nothing that it involves differs from itself.** -/
theorem same_self_iff (hmade : ∀ w, Involves store v w → w.WellMade store) :
    v.same store v = true ↔ ∀ w, Involves store v w → ¬w.Differs store :=
  ⟨fun hsame _ => not_differs_of_same hsame hmade,
    fun h => same_of_not_differs (.start _ _ _) fun w hw => ⟨hmade w hw, h w hw⟩⟩

end Value

end LiveTemplate
