import LiveTemplate.Proofs.Value.Content
import LiveTemplate.Proofs.Value.Equivalence
import LiveTemplate.Proofs.Value.Search
/-!
# Equality of values is a partial equivalence

Whether two values are equal is asked of the expanded ones.  What is compared there, part after part, is
the expansion of what the value *involves*: elements of arrays, entries of maps and properties of
filters, all through editable containers and views of documents.

So equality of values is symmetric and transitive.  A value equals itself if it involves nothing that
differs from itself: no number that is not a number, and nothing opaque that has no identity.  And it must
not involve a container that holds itself, since comparing such a container has no end.

Expansion opens editable containers only so many times, one inside the other.  Why does it reach the
innermost one?  On the way in no container is met twice, and each that holds anything has a cell in the
store; so there are at most as many steps as cells, and one more into a container that is empty.
-/

set_option autoImplicit false

namespace LiveTemplate.Value

open Json (onEntry)
open Relation (ReflTransGen TransGen)

variable {store : Store} {v w x : Value} {depth : Nat}

/-! ## What a value involves -/

/-- Comparing the first value looks at the second one. -/
inductive LooksAt (store : Store) (v : Value) : Value → Prop
  | item {w : Value} : w ∈ v.items store → LooksAt store v w
  | entry {entry : String × Value} : v.kind = .map → entry ∈ v.entries store →
      LooksAt store v entry.2
  | property {ref : Ref} {name : String} {entry : String × Value}
      {properties : List (String × Value)} : v = .filter ref name properties →
      entry ∈ properties → LooksAt store v entry.2

/-- Comparing the first value looks at the second one in the end. -/
def Involves (store : Store) : Value → Value → Prop := ReflTransGen (LooksAt store)

/-- The value is as values are made: a map has each key once, and a view shows an array or an object. -/
structure WellMade (store : Store) (v : Value) : Prop where
  keys : v.kind = .map → (v.keys store).Nodup
  shows : ∀ ref document path, v = .view ref document path →
    (shown document path).isContainer = true

/-- Nothing about the value itself makes it differ from itself. -/
structure Definite (store : Store) (v : Value) : Prop where
  numbers : ∀ x ∈ v.numbers, x.isNaN = false
  /-- Something opaque has an identity to be compared by. -/
  identity : ∀ ref kind label, v = .handle ref kind label → kind.comparesByIdentity = true
  /-- The value does not hold itself. -/
  wellFounded : ¬TransGen (LooksAt store) v v

/-- Something about the value makes it differ from itself. -/
inductive Differs (store : Store) : Value → Prop
  /-- One of its own numbers is none. -/
  | number {v : Value} {x : Float} : x ∈ v.numbers → x.isNaN = true → Differs store v
  /-- It is opaque, is no container and is not compared by identity. -/
  | unknown {ref : Ref} {kind : Kind} {label : String} : kind ≠ .array → kind ≠ .map →
    kind.comparesByIdentity = false → Differs store (.handle ref kind label)
  /-- It holds itself. -/
  | endless {v : Value} : TransGen (LooksAt store) v v → Differs store v

/-- What is definite does not differ from itself. -/
theorem not_differs_of_definite (h : v.Definite store) : ¬v.Differs store := by
  intro hdiffers
  cases hdiffers with
  | number hx hnan =>
    rw [h.numbers _ hx] at hnan
    cases hnan
  | unknown _ _ hcompares =>
    rw [h.identity _ _ _ rfl] at hcompares
    cases hcompares
  | endless hloop => exact h.wellFounded hloop

/-- What does not differ from itself is definite, or opaque and an empty container. -/
theorem definite_of_not_differs (h : ¬v.Differs store) : v.Definite store ∨
    ∃ (ref : Ref) (kind : Kind) (label : String), v = .handle ref kind label ∧ (kind = .array ∨ kind = .map) := by
  rw [or_iff_not_imp_right]
  intro hother
  refine ⟨fun x hx => ?_, ?_, fun hloop => h (.endless hloop)⟩
  · rw [← Bool.not_eq_true]
    exact fun hnan => h (.number hx hnan)
  · rintro ref kind label rfl
    by_contra hcompares
    refine h (.unknown ?_ ?_ (Bool.not_eq_true _ ▸ hcompares))
    · exact fun hkind => hother ⟨ref, kind, label, rfl, .inl hkind⟩
    · exact fun hkind => hother ⟨ref, kind, label, rfl, .inr hkind⟩

/-! ## Expansion, part by part -/

/-- The value with only fixed containers in it, down to a depth. -/
def expandedTo (store : Store) (depth : Nat) (v : Value) : Value := (freezeTo store depth v).copyViews

theorem expandedTo_array (store : Store) (depth : Nat) (ref : Ref) (items : List Value) :
    expandedTo store depth (array ref items) = array ref (items.map (expandedTo store depth)) := by
  rw [expandedTo, freezeTo_array, copyViews, copyViewsItems_eq_map, List.map_map]
  rfl

theorem expandedTo_map (store : Store) (depth : Nat) (ref : Ref) (entries : List (String × Value)) :
    expandedTo store depth (map ref entries)
      = map ref (entries.map (onEntry (expandedTo store depth))) := by
  rw [expandedTo, freezeTo_map, copyViews, copyViewsEntries_eq_map, List.map_map]
  rfl

theorem expandedTo_filter (store : Store) (depth : Nat) (ref : Ref) (name : String)
    (properties : List (String × Value)) :
    expandedTo store depth (filter ref name properties)
      = filter ref name (properties.map (onEntry (expandedTo store depth))) := by
  rw [expandedTo, freezeTo_filter, copyViews, copyViewsEntries_eq_map, List.map_map]
  rfl

theorem expandedTo_mutableArray (store : Store) (depth : Nat) (ref : Ref) :
    expandedTo store (depth + 1) (mutableArray ref)
      = array ref ((store.cellItems ref).map (expandedTo store depth)) := by
  simp [expandedTo, freezeTo, freezeWith, copyViews, copyViewsItems_eq_map, Function.comp_def]

theorem expandedTo_mutableMap (store : Store) (depth : Nat) (ref : Ref) :
    expandedTo store (depth + 1) (mutableMap ref)
      = map ref ((store.cellEntries ref).map (onEntry (expandedTo store depth))) := by
  simp [expandedTo, freezeTo, freezeWith, copyViews, copyViewsEntries_eq_map, onEntry,
    Function.comp_def]

theorem expandedTo_view (store : Store) (depth : Nat) (ref : Ref) (document : Json)
    (path : List Char) :
    expandedTo store depth (view ref document path) = copyJson ref (shown document path) := by
  cases depth <;> rfl

/-- What a view shows at a place expands to a copy of this place. -/
theorem expandedTo_ofJson (store : Store) (depth : Nat) (ref : Ref) {document node : Json}
    {path : List Char} (h : shown document path = node) :
    expandedTo store depth (ofJson ref document path node) = copyJson ref node := by
  cases node with
  | array | object => exact (expandedTo_view ..).trans (congrArg _ h)
  | _ => cases depth <;> rfl

/-- The depth that is left for the parts of a value: opening an editable container takes one step. -/
def Descends (v : Value) (depth depth' : Nat) : Prop :=
  if v.isMutable = true then depth' + 1 = depth else depth' = depth

/-- The elements of an expansion are the expansions of the elements. -/
theorem fixedItems_expandedTo {items : List Value}
    (h : (expandedTo store depth v).fixedItems? = some items) :
    ∃ depth', Descends v depth depth' ∧ items = (v.items store).map (expandedTo store depth') := by
  cases v with
  | array ref values =>
    rw [expandedTo_array] at h
    cases h
    exact ⟨depth, rfl, rfl⟩
  | mutableArray ref =>
    cases depth with
    | zero => cases h
    | succ depth =>
      rw [expandedTo_mutableArray] at h
      cases h
      exact ⟨depth, rfl, rfl⟩
  | view ref document path =>
    refine ⟨depth, rfl, ?_⟩
    rw [expandedTo_view] at h
    cases hshown : shown document path with
    | array values =>
      rw [hshown, copyJson_array] at h
      cases h
      simp only [Value.items, hshown]
      refine List.ext_getElem (by simp) fun i hi hi' => ?_
      have hlt : i < values.length := by simpa using hi
      simp only [List.getElem_map, List.getElem_mapIdx]
      exact (expandedTo_ofJson store depth ref (shown_item hshown hlt)).symm
    | _ =>
      rw [hshown] at h
      cases h
  | handle ref kind label =>
    refine ⟨depth, rfl, ?_⟩
    cases kind <;> cases depth <;> cases h <;> rfl
  | mutableMap => cases depth <;> cases h
  | _ => cases depth <;> cases h

/-- The entries of an expansion are the expansions of the entries, if a view has each key once. -/
theorem fixedEntries_expandedTo {entries : List (String × Value)}
    (hkeys : v.kind = .map → (v.keys store).Nodup)
    (h : (expandedTo store depth v).fixedEntries? = some entries) :
    v.kind = .map ∧ ∃ depth', Descends v depth depth' ∧
      entries = (v.entries store).map (onEntry (expandedTo store depth')) := by
  cases v with
  | map ref values =>
    rw [expandedTo_map] at h
    cases h
    exact ⟨rfl, depth, rfl, rfl⟩
  | mutableMap ref =>
    cases depth with
    | zero => cases h
    | succ depth =>
      rw [expandedTo_mutableMap] at h
      cases h
      exact ⟨rfl, depth, rfl, rfl⟩
  | view ref document path =>
    rw [expandedTo_view] at h
    cases hshown : shown document path with
    | object fields =>
      rw [hshown, copyJson_object] at h
      cases h
      have hkind : (view ref document path).kind = .map := by simp [Value.kind, hshown]
      have hnames : (fields.map fun field => field.1).Nodup := by
        simpa [Value.keys, Value.entries, hshown, Function.comp_def] using hkeys hkind
      refine ⟨hkind, depth, rfl, ?_⟩
      simp only [Value.entries, hshown, List.map_map]
      refine List.map_congr_left fun field hfield => Prod.ext rfl ?_
      exact (expandedTo_ofJson store depth ref (shown_field hshown hnames hfield)).symm
    | _ =>
      rw [hshown] at h
      cases h
  | handle ref kind label =>
    cases kind with
    | map =>
      refine ⟨rfl, depth, rfl, ?_⟩
      cases depth <;> cases h <;> rfl
    | _ => cases depth <;> cases h
  | _ => cases depth <;> cases h

/-- **What is compared in an expansion** are expansions of what comparing the value looks at. -/
theorem isPart_expandedTo (hkeys : v.kind = .map → (v.keys store).Nodup)
    (h : IsPart x (expandedTo store depth v)) :
    ∃ depth' w, LooksAt store v w ∧ x = expandedTo store depth' w ∧ Descends v depth depth' := by
  generalize ha : expandedTo store depth v = a at h
  cases h with
  | item hitems hx =>
    obtain ⟨depth', hdepth, rfl⟩ := fixedItems_expandedTo (ha ▸ hitems)
    obtain ⟨w, hw, rfl⟩ := List.mem_map.mp hx
    exact ⟨depth', w, .item hw, rfl, hdepth⟩
  | entry hentries hx =>
    obtain ⟨hkind, depth', hdepth, rfl⟩ := fixedEntries_expandedTo hkeys (ha ▸ hentries)
    obtain ⟨entry, hentry, rfl⟩ := List.mem_map.mp hx
    exact ⟨depth', entry.2, .entry hkind hentry, rfl, hdepth⟩
  | property hx =>
    cases v with
    | filter ref name properties =>
      rw [expandedTo_filter] at ha
      cases ha
      obtain ⟨entry, hentry, rfl⟩ := List.mem_map.mp hx
      exact ⟨depth, entry.2, .property rfl hentry, rfl, rfl⟩
    | view ref document path =>
      rw [expandedTo_view] at ha
      cases hshown : shown document path <;> rw [hshown] at ha <;> cases ha
    | _ => cases depth <;> cases ha

/-! ## Symmetry -/

/-- The maps of the expansion have each key once if those that the value involves do. -/
theorem keyed_expandedTo (h : ∀ w, Involves store v w → w.WellMade store) :
    Keyed (expandedTo store depth v) := by
  suffices hall : ∀ a depth v, a = expandedTo store depth v →
      (∀ w, Involves store v w → w.WellMade store) → Keyed a from hall _ depth v rfl h
  intro a
  induction a using part_induction with
  | h a ih =>
    rintro depth v rfl h
    have hkeys := (h v .refl).keys
    refine .intro (fun entries hentries => ?_) fun x hx => ?_
    · obtain ⟨hkind, _, -, rfl⟩ := fixedEntries_expandedTo hkeys hentries
      rw [List.map_map]
      exact hkeys hkind
    · obtain ⟨depth', w, hw, rfl, -⟩ := isPart_expandedTo hkeys hx
      exact ih _ hx depth' w rfl fun y hy => h y (hy.head hw)

/-! ## The depth of the expansion is enough -/

/-- An editable container that has anything to look at has its cell in the store. -/
theorem mem_holders (hv : v.isMutable = true) (h : LooksAt store v w) :
    v ∈ store.cells.map holder := by
  rcases mem_holders_or_empty hv with hheld | ⟨hitems, hentries⟩
  · exact hheld
  · cases h with
    | item hw => simp [hitems] at hw
    | entry _ hw => simp [hentries] at hw
    | property hfilter => rw [hfilter] at hv; cases hv

/-- The way that led to a value, from a value to one that it looks at and on from there: the containers that
were opened are all different and have their cells, the value leads back to none of them, and the depth is
what they have left of it. -/
structure Entered (looks : Value → Value → Prop) (store : Store) (opened : List Value) (depth : Nat) (v : Value) :
    Prop where
  nodup : opened.Nodup
  held : opened ⊆ store.cells.map holder
  depth_eq : opened.length + depth = store.cells.length + 1
  apart : ∀ w ∈ opened, ¬ReflTransGen looks v w

variable {looks : Value → Value → Prop} {opened : List Value}

/-- At the beginning nothing was opened. -/
theorem Entered.start (looks : Value → Value → Prop) (store : Store) (v : Value) :
    Entered looks store [] (store.cells.length + 1) v :=
  ⟨List.nodup_nil, List.nil_subset _, Nat.zero_add _, fun _ hw => nomatch hw⟩

/-- The depth lasts for one container more. -/
theorem Entered.depth_pos (h : Entered looks store opened depth v) : 0 < depth := by
  have hlength := h.nodup.length_le_of_subset h.held
  rw [List.length_map] at hlength
  have heq := h.depth_eq
  omega

/-- One step further the way is as good, if the value does not hold itself. -/
theorem Entered.step (h : Entered looks store opened depth v) {depth' : Nat} (hv : ¬TransGen looks v v)
    (hw : looks v w) (hheld : v.isMutable = true → v ∈ store.cells.map holder)
    (hdepth : Descends v depth depth') : ∃ opened', Entered looks store opened' depth' w := by
  unfold Descends at hdepth
  split at hdepth
  · next hmutable =>
    refine ⟨v :: opened, ?_, ?_, ?_, ?_⟩
    · exact List.nodup_cons.mpr ⟨fun hmem => h.apart v hmem .refl, h.nodup⟩
    · exact List.cons_subset.mpr ⟨hheld hmutable, h.held⟩
    · have heq := h.depth_eq
      rw [List.length_cons]
      omega
    · intro x hx hback
      rcases List.mem_cons.mp hx with rfl | hx
      · exact hv (.head' hw hback)
      · exact h.apart x hx (hback.head hw)
  · subst hdepth
    exact ⟨opened, h.nodup, h.held, h.depth_eq, fun x hx hback => h.apart x hx (hback.head hw)⟩

/-! ## Reflexivity -/

theorem numbers_expandedTo (hv : v.WellMade store) :
    (expandedTo store depth v).numbers = v.numbers := by
  cases v with
  | view ref document path =>
    have hcontainer := hv.shows ref document path rfl
    rw [expandedTo_view]
    cases hshown : shown document path <;> rw [hshown] at hcontainer <;> cases hcontainer <;> rfl
  | _ => cases depth <;> rfl

theorem isComparable_expandedTo (hdepth : 0 < depth) (hv : v.WellMade store)
    (hdefinite : v.Definite store) : (expandedTo store depth v).isComparable = true := by
  obtain ⟨depth, rfl⟩ := Nat.exists_eq_succ_of_ne_zero hdepth.ne'
  cases v with
  | view ref document path =>
    have hcontainer := hv.shows ref document path rfl
    rw [expandedTo_view]
    cases hshown : shown document path <;> rw [hshown] at hcontainer <;> cases hcontainer <;> rfl
  | handle ref kind label => exact hdefinite.identity ref kind label rfl
  | _ => rfl

/-- The expansion of a map has each key once, as the map has. -/
theorem nodup_fixedEntries (hmade : v.WellMade store) : ∀ entries,
    (expandedTo store depth v).fixedEntries? = some entries → (entries.map fun entry => entry.1).Nodup := by
  intro entries hentries
  obtain ⟨hkind, _, -, rfl⟩ := fixedEntries_expandedTo hmade.keys hentries
  rw [List.map_map]
  exact hmade.keys hkind

/-- The expansion of a value equals itself if nothing that the value involves differs from itself. -/
theorem same_of_not_differs {opened : List Value} (hentered : Entered (LooksAt store) store opened depth v)
    (h : ∀ w, Involves store v w → w.WellMade store ∧ ¬w.Differs store) :
    sameExpanded (expandedTo store depth v) (expandedTo store depth v) = true := by
  suffices hall : ∀ a depth v opened, a = expandedTo store depth v →
      Entered (LooksAt store) store opened depth v →
      (∀ w, Involves store v w → w.WellMade store ∧ ¬w.Differs store) → sameExpanded a a = true from
    hall _ depth v opened rfl hentered h
  intro a
  induction a using part_induction with
  | h a ih =>
    rintro depth v opened rfl hentered h
    obtain ⟨hmade, hdiffers⟩ := h v .refl
    rcases definite_of_not_differs hdiffers with hdefinite | ⟨ref, kind, label, rfl, rfl | rfl⟩
    · refine sameExpanded_self (isComparable_expandedTo hentered.depth_pos hmade hdefinite) ?_ ?_ ?_
      · rw [numbers_expandedTo hmade]
        exact hdefinite.numbers
      · exact nodup_fixedEntries hmade
      · intro x hx
        obtain ⟨depth', w, hw, rfl, hdepth⟩ := isPart_expandedTo hmade.keys hx
        obtain ⟨opened', hentered'⟩ := hentered.step hdefinite.wellFounded hw (fun hv => mem_holders hv hw) hdepth
        exact ih _ hx depth' w opened' rfl hentered' fun y hy => h y (hy.head hw)
    · cases depth <;> rfl
    · cases depth <;> rfl

/-- The expansion of a value equals itself if everything that the value involves is definite. -/
theorem sameExpanded_expandedTo (hentered : Entered (LooksAt store) store opened depth v)
    (h : ∀ w, Involves store v w → w.WellMade store ∧ w.Definite store) :
    sameExpanded (expandedTo store depth v) (expandedTo store depth v) = true :=
  same_of_not_differs hentered fun w hw => (h w hw).imp_right not_differs_of_definite

/-- **Equality of values is a partial equivalence.**  Whatever forms of containers two values are made of
and however deep these are nested, they are equal in both orders or in neither, and values that equal a
third one through a second are equal.  And a value equals itself, if no number that it involves is
not-a-number, nothing opaque that it involves lacks an identity, and nothing that it involves holds
itself. -/
theorem same_equivalence (store : Store) (a b c : Value) :
    ((∀ w, Involves store a w → w.WellMade store) → a.same store b = true → b.same store a = true) ∧
    (a.same store b = true → b.same store c = true → a.same store c = true) ∧
    ((∀ w, Involves store a w → w.WellMade store ∧ w.Definite store) → a.same store a = true) := by
  refine ⟨fun h => ?_, sameExpanded_trans _ _ _, fun h => ?_⟩
  · exact sameExpanded_symm (keyed_expandedTo h)
  · exact sameExpanded_expandedTo (.start _ _ _) h

/-- A store with an editable array that holds a number. -/
def tray : Store := ⟨[], [], [(2, .items [.number 1.0])]⟩

theorem looksAt_number {y : Float} : ¬LooksAt store (.number y) w := by
  intro h
  cases h with
  | item hw => cases hw
  | entry hkind => cases hkind
  | property hfilter => cases hfilter

theorem looksAt_tray (h : LooksAt tray (.mutableArray 2) w) : w = .number 1.0 := by
  cases h with
  | item hw => exact List.mem_singleton.mp hw
  | entry hkind => cases hkind
  | property hfilter => cases hfilter

theorem looksAt_labelled (h : LooksAt tray (.map 3 [("xs", .mutableArray 2)]) w) :
    w = .mutableArray 2 := by
  cases h with
  | item hw => cases hw
  | entry _ hw => rw [List.mem_singleton.mp hw]
  | property hfilter => cases hfilter

theorem involves_number {y : Float} (h : Involves store (.number y) w) : w = .number y := by
  rcases h.cases_head with heq | ⟨_, hw, -⟩
  · exact heq.symm
  · exact absurd hw looksAt_number

theorem involves_tray (h : Involves tray (.mutableArray 2) w) :
    w = .mutableArray 2 ∨ w = .number 1.0 := by
  rcases h.cases_head with heq | ⟨x, hx, hw⟩
  · exact .inl heq.symm
  · obtain rfl := looksAt_tray hx
    exact .inr (involves_number hw)

/-- A map with an editable array in it, a document and a map with a fixed array equal each other. -/
theorem same_equivalence_forms :
    let edited : Value := .map 3 [("xs", .mutableArray 2)]
    let shown : Value := .view 4 (.object [("xs", .array [.float 1.0])]) []
    let fixed : Value := .map 5 [("xs", .array 6 [.number 1.0])]
    shown.same tray edited = true ∧ edited.same tray fixed = true ∧ edited.same tray edited = true := by
  intro edited shown fixed
  have hinvolves : ∀ w, Involves tray edited w → w = edited ∨ w = .mutableArray 2 ∨ w = .number 1.0 := by
    intro w hw
    rcases hw.cases_head with heq | ⟨x, hx, hw⟩
    · exact .inl heq.symm
    · obtain rfl := looksAt_labelled hx
      exact .inr (involves_tray hw)
  have hnumber : (Value.number 1.0).WellMade tray ∧ (Value.number 1.0).Definite tray := by
    refine ⟨⟨nofun, nofun⟩, ⟨by decide +kernel, nofun, fun hloop => ?_⟩⟩
    obtain ⟨_, hw, -⟩ := TransGen.head'_iff.mp hloop
    exact looksAt_number hw
  have harray : (Value.mutableArray 2).WellMade tray ∧ (Value.mutableArray 2).Definite tray := by
    refine ⟨⟨nofun, nofun⟩, ⟨nofun, nofun, fun hloop => ?_⟩⟩
    obtain ⟨_, hw, hback⟩ := TransGen.head'_iff.mp hloop
    obtain rfl := looksAt_tray hw
    cases involves_number hback
  have hmap : edited.WellMade tray ∧ edited.Definite tray := by
    refine ⟨⟨fun _ => by decide, nofun⟩, ⟨nofun, nofun, fun hloop => ?_⟩⟩
    obtain ⟨_, hw, hback⟩ := TransGen.head'_iff.mp hloop
    obtain rfl := looksAt_labelled hw
    rcases involves_tray hback with heq | heq <;> simp [edited] at heq
  have hall : ∀ w, Involves tray edited w → w.WellMade tray ∧ w.Definite tray := by
    intro w hw
    rcases hinvolves w hw with rfl | rfl | rfl
    · exact hmap
    · exact harray
    · exact hnumber
  obtain ⟨hsymm, htrans, hself⟩ := same_equivalence tray edited shown fixed
  exact ⟨hsymm (fun w hw => (hall w hw).1) (by decide +kernel),
    htrans (by decide +kernel) (by decide +kernel), hself hall⟩

end LiveTemplate.Value
