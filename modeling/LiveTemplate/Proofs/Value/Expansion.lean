import LiveTemplate.Proofs.Value.Shape
/-!
# Questions about whole values

Three questions go through all of a value: does it reach something that is computed by evaluation,
does it reach an impure function, and does it equal another one.  The program asks them of the
expanded value.  Here the first becomes a recursion of its own, `hasEvaluable`, instead of a walk
with a state; and all three are shown to have the same answer for alike values.

Equality needs one side to be free of nodes and symbols, since it tells those apart by reference.
The program only ever compares values that have been evaluated.
-/

set_option autoImplicit false

namespace LiveTemplate

namespace Value

open Json (onEntry)

/-! ## Reaching what is computed by evaluation -/

mutual
/-- Is an expanded value computed by evaluation, or a part of it? -/
def hasEvaluable : Value → Bool
  | .array _ items => anyEvaluable items
  | .map _ entries => anyEvaluableEntry entries
  | v => v.isEvaluable

/-- Has one of the elements something that is computed by evaluation? -/
def anyEvaluable : List Value → Bool
  | [] => false
  | v :: rest => hasEvaluable v || anyEvaluable rest

/-- Has one of the values of the entries something that is computed by evaluation? -/
def anyEvaluableEntry : List (String × Value) → Bool
  | [] => false
  | (_, v) :: rest => hasEvaluable v || anyEvaluableEntry rest
end

theorem anyEvaluable_eq_any (items : List Value) :
    anyEvaluable items = (items.map hasEvaluable).any id := by
  induction items with
  | nil => rfl
  | cons v rest ih => rw [anyEvaluable, ih, List.map_cons, List.any_cons, id]

theorem anyEvaluableEntry_eq_any (entries : List (String × Value)) :
    anyEvaluableEntry entries = (entries.map fun entry => hasEvaluable entry.2).any id := by
  induction entries with
  | nil => rfl
  | cons entry rest ih =>
    obtain ⟨key, v⟩ := entry
    rw [anyEvaluableEntry, ih, List.map_cons, List.any_cons, id]

/-- Has the visitor found something, then or before? -/
def find (found : Bool) (v : Value) : Bool := found || v.isEvaluable

theorem walkItems_find {items : List Value}
    (h : ∀ v ∈ items, ∀ found, walkExpanded find id found v = (found || hasEvaluable v))
    (found : Bool) : walkItems find id found items = (found || anyEvaluable items) := by
  induction items generalizing found with
  | nil => simp [walkItems, anyEvaluable]
  | cons v rest ih =>
    have hrest := ih (fun w hw => h w (List.mem_cons_of_mem _ hw))
    simp only [walkItems, anyEvaluable, h v List.mem_cons_self, hrest, id]
    cases found <;> cases hasEvaluable v <;> rfl

theorem walkEntries_find {entries : List (String × Value)}
    (h : ∀ entry ∈ entries, ∀ found, walkExpanded find id found entry.2 = (found || hasEvaluable entry.2))
    (found : Bool) : walkEntries find id found entries = (found || anyEvaluableEntry entries) := by
  induction entries generalizing found with
  | nil => simp [walkEntries, anyEvaluableEntry]
  | cons entry rest ih =>
    obtain ⟨key, v⟩ := entry
    have hrest := ih (fun e he => h e (List.mem_cons_of_mem _ he))
    have hv := h (key, v) List.mem_cons_self
    simp only [walkEntries, anyEvaluableEntry, hv, hrest, id]
    cases found <;> cases hasEvaluable v <;> rfl

theorem walk_find (v : Value) : ∀ found, walkExpanded find id found v = (found || hasEvaluable v) := by
  induction v using nested_induction with
  | atom v h => intro found; cases v <;> first | rfl | exact h.elim
  | array ref items ih =>
    intro found
    simp only [walkExpanded, walkItems_find ih, hasEvaluable, find, isEvaluable, kind,
      Kind.isEvaluable, Bool.or_false, id]
    cases found <;> simp
  | map ref entries ih =>
    intro found
    simp only [walkExpanded, walkEntries_find ih, hasEvaluable, find, isEvaluable, kind,
      Kind.isEvaluable, Bool.or_false, id]
    cases found <;> simp
  | node ref op operands _ =>
    intro found
    simp [walkExpanded, hasEvaluable, find, isEvaluable, kind, Kind.isEvaluable]
  | filter ref name properties _ => intro found; rfl

theorem reachesEvaluable_eq (store : Store) (v : Value) :
    v.reachesEvaluable store = (v.expanded store).hasEvaluable :=
  (walk_find _ false).trans (Bool.false_or _)

/-! ## Expansion keeps the kind -/

theorem kind_freezeWith (store : Store) (inside : Value → Value) (v : Value) :
    (freezeWith store inside v).kind = v.kind := by cases v <;> rfl

/-- What is computed by evaluation stays so when it is expanded. -/
theorem hasEvaluable_of_isEvaluable {v : Value} (h : v.isEvaluable = true) : v.hasEvaluable = true := by
  cases v with
  | array => cases h
  | map => cases h
  | _ => exact h

theorem kind_view (ref : Ref) (document : Json) (path : List Char) :
    (view ref document path).kind = .map ∨ (view ref document path).kind = .array := by
  simp only [kind]
  cases shown document path <;> simp

/-- Scalars have no parts. -/
theorem parts_inline (store : Store) {v : Value} (h : v.kind.isInline = true) :
    v.items store = [] ∧ v.entries store = [] := by
  cases v with
  | view ref document path =>
    rcases kind_view ref document path with hkind | hkind <;> rw [hkind] at h <;> cases h
  | styling ref value => exact ⟨rfl, rfl⟩
  | handle ref kind label => exact ⟨rfl, rfl⟩
  | _ => first | exact ⟨rfl, rfl⟩ | cases h

theorem isEvaluable_copyViews {v : Value} (h : v.isEvaluable = true) :
    v.copyViews.isEvaluable = true := by
  cases v with
  | view ref document path =>
    rw [isEvaluable] at h
    rcases kind_view ref document path with hkind | hkind <;> rw [hkind] at h <;> cases h
  | _ => exact h

theorem isEvaluable_expanded (store : Store) {v : Value} (h : v.isEvaluable = true) :
    (v.expanded store).isEvaluable = true := by
  refine isEvaluable_copyViews ?_
  unfold isEvaluable frozen freezeTo
  rw [kind_freezeWith]
  exact h

theorem not_isEvaluable {store : Store} {v : Value} (h : v.reachesEvaluable store = false) :
    v.isEvaluable = false := by
  by_contra hv
  rw [Bool.not_eq_false] at hv
  rw [reachesEvaluable_eq, hasEvaluable_of_isEvaluable (isEvaluable_expanded store hv)] at h
  cases h

/-- A value that is not computed by evaluation is its own value. -/
theorem eval_of_not_isEvaluable {store : Store} {v : Value} (h : v.isEvaluable = false) :
    v.eval store = pure v := by
  cases v with
  | node => cases h
  | symbol => cases h
  | handle ref kind label =>
    have hkind : kind.isEvaluable = false := h
    simp [eval, hkind]
  | _ => rfl

theorem eval_eq_pure {store : Store} {v : Value} (h : v.reachesEvaluable store = false) :
    v.eval store = pure v := eval_of_not_isEvaluable (not_isEvaluable h)

/-! ## Alike values have alike expansions -/

theorem freezeWith_shape (store : Store) (inside : Value → Value) (v : Value) :
    (freezeWith store inside v.shape).shape = (freezeWith store inside v).shape := by
  induction v using nested_induction with
  | atom v h => cases v <;> first | rfl | exact h.elim
  | array ref items ih =>
    simp only [shape, freezeWith, freezeItems_eq_map, shapeItems_eq_map, List.map_map]
    exact congrArg _ (List.map_congr_left ih)
  | map ref entries ih =>
    simp only [shape, freezeWith, freezeEntries_eq_map, shapeEntries_eq_map, List.map_map]
    exact congrArg _ (List.map_congr_left fun entry he => Prod.ext rfl (ih entry he))
  | node ref op operands ih =>
    simp only [shape, freezeWith, freezeItems_eq_map, shapeItems_eq_map, List.map_map]
    exact congrArg _ (List.map_congr_left ih)
  | filter ref name properties _ => rfl

theorem copyViews_shape (v : Value) : v.shape.copyViews.shape = v.copyViews.shape := by
  induction v using nested_induction with
  | atom v h => cases v <;> first | rfl | exact h.elim
  | array ref items ih =>
    simp only [shape, copyViews, copyViewsItems_eq_map, shapeItems_eq_map, List.map_map]
    exact congrArg _ (List.map_congr_left ih)
  | map ref entries ih =>
    simp only [shape, copyViews, copyViewsEntries_eq_map, shapeEntries_eq_map, List.map_map]
    exact congrArg _ (List.map_congr_left fun entry he => Prod.ext rfl (ih entry he))
  | node ref op operands ih =>
    simp only [shape, copyViews, copyViewsItems_eq_map, shapeItems_eq_map, List.map_map]
    exact congrArg _ (List.map_congr_left ih)
  | filter ref name properties _ => rfl

theorem expanded_shape (store : Store) (v : Value) :
    (v.shape.expanded store).shape = (v.expanded store).shape := by
  unfold expanded
  rw [← copyViews_shape (frozen store v.shape), ← copyViews_shape (frozen store v)]
  exact congrArg (fun w => (copyViews w).shape) (freezeWith_shape store _ v)

theorem Alike.expanded (store : Store) {a b : Value} (h : Alike a b) :
    Alike (a.expanded store) (b.expanded store) :=
  h.congr (f := fun v => (v.expanded store).shape) (expanded_shape store)

theorem hasEvaluable_shape (v : Value) : v.shape.hasEvaluable = v.hasEvaluable := by
  induction v using nested_induction with
  | atom v h => cases v <;> first | rfl | exact h.elim
  | array ref items ih =>
    simp only [shape, hasEvaluable, anyEvaluable_eq_any, shapeItems_eq_map, List.map_map]
    exact congrArg (List.any · id) (List.map_congr_left ih)
  | map ref entries ih =>
    simp only [shape, hasEvaluable, anyEvaluableEntry_eq_any, shapeEntries_eq_map, List.map_map]
    exact congrArg (List.any · id) (List.map_congr_left ih)
  | node ref op operands _ => rfl
  | filter ref name properties _ => rfl

theorem isPureExpanded_shape (v : Value) : v.shape.isPureExpanded = v.isPureExpanded := by
  induction v using nested_induction with
  | atom v h => cases v <;> first | rfl | exact h.elim
  | array ref items ih =>
    simp only [shape, isPureExpanded, allPure_eq_all, shapeItems_eq_map, List.map_map]
    exact congrArg (List.all · id) (List.map_congr_left ih)
  | map ref entries ih =>
    simp only [shape, isPureExpanded, allPureEntries_eq_all, shapeEntries_eq_map, List.map_map]
    exact congrArg (List.all · id) (List.map_congr_left ih)
  | node ref op operands ih =>
    simp only [shape, isPureExpanded, allPure_eq_all, shapeItems_eq_map, List.map_map]
    exact congrArg (List.all · id) (List.map_congr_left ih)
  | filter ref name properties _ => rfl

theorem Alike.reachesEvaluable (store : Store) {a b : Value} (h : Alike a b) :
    a.reachesEvaluable store = b.reachesEvaluable store := by
  rw [reachesEvaluable_eq, reachesEvaluable_eq]
  exact (h.expanded store).congr (f := hasEvaluable) hasEvaluable_shape

theorem Alike.isPure (store : Store) {a b : Value} (h : Alike a b) :
    a.isPure store = b.isPure store :=
  (h.expanded store).congr (f := isPureExpanded) isPureExpanded_shape

/-! ## Equality of alike values -/

section

variable {f : Value → Value}

theorem sameItems_map_left {xs ys : List Value}
    (h : ∀ v ∈ xs, ∀ w ∈ ys, sameExpanded (f v) w = sameExpanded v w) :
    sameItems (xs.map f) ys = sameItems xs ys := by
  induction xs generalizing ys with
  | nil => rfl
  | cons v rest ih =>
    cases ys with
    | nil => rfl
    | cons w ws =>
      simp only [List.map_cons, sameItems, h v List.mem_cons_self w List.mem_cons_self]
      rw [ih fun v hv w hw => h v (List.mem_cons_of_mem _ hv) w (List.mem_cons_of_mem _ hw)]

theorem sameItems_map_right {xs ys : List Value}
    (h : ∀ v ∈ xs, ∀ w ∈ ys, sameExpanded v (f w) = sameExpanded v w) :
    sameItems xs (ys.map f) = sameItems xs ys := by
  induction xs generalizing ys with
  | nil => cases ys <;> rfl
  | cons v rest ih =>
    cases ys with
    | nil => rfl
    | cons w ws =>
      simp only [List.map_cons, sameItems, h v List.mem_cons_self w List.mem_cons_self]
      rw [ih fun v hv w hw => h v (List.mem_cons_of_mem _ hv) w (List.mem_cons_of_mem _ hw)]

theorem foundIn_map_left {xs ys : List (String × Value)}
    (h : ∀ entry ∈ xs, ∀ other ∈ ys,
      sameExpanded (f entry.2) other.2 = sameExpanded entry.2 other.2) :
    foundIn (xs.map (onEntry f)) ys = foundIn xs ys := by
  induction xs with
  | nil => rfl
  | cons entry rest ih =>
    have hrest := ih fun v hv w hw => h v (List.mem_cons_of_mem _ hv) w hw
    simp only [List.map_cons, onEntry, foundIn]
    rw [hrest]
    cases hlookup : Json.lookup? entry.1 ys with
    | none => rfl
    | some w =>
      obtain ⟨other, hother, rfl⟩ := Json.lookup_mem hlookup
      simp only [Option.any_some, h entry List.mem_cons_self other hother]

theorem foundIn_map_right {xs ys : List (String × Value)}
    (h : ∀ entry ∈ xs, ∀ other ∈ ys,
      sameExpanded entry.2 (f other.2) = sameExpanded entry.2 other.2) :
    foundIn xs (ys.map (onEntry f)) = foundIn xs ys := by
  induction xs with
  | nil => rfl
  | cons entry rest ih =>
    have hrest := ih fun v hv w hw => h v (List.mem_cons_of_mem _ hv) w hw
    simp only [foundIn]
    rw [hrest, Json.lookup_map]
    cases hlookup : Json.lookup? entry.1 ys with
    | none => rfl
    | some w =>
      obtain ⟨other, hother, rfl⟩ := Json.lookup_mem hlookup
      simp only [Option.map_some, Option.any_some, h entry List.mem_cons_self other hother]

/-- An array looks at the elements of the other value only. -/
theorem sameExpanded_array {ref : Ref} {items : List Value} {b c : Value}
    (hitems : c.fixedItems? = b.fixedItems?.map (List.map f))
    (h : ∀ others, b.fixedItems? = some others → ∀ v ∈ items, ∀ w ∈ others,
      sameExpanded v (f w) = sameExpanded v w) :
    sameExpanded (.array ref items) c = sameExpanded (.array ref items) b := by
  simp only [sameExpanded, hitems]
  cases hb : b.fixedItems? with
  | none => rfl
  | some others => simp only [Option.map_some, Option.any_some, sameItems_map_right (h others hb)]

/-- A map looks at the entries of the other value only. -/
theorem sameExpanded_map {ref : Ref} {entries : List (String × Value)} {b c : Value}
    (hentries : c.fixedEntries? = b.fixedEntries?.map (List.map (onEntry f)))
    (h : ∀ others, b.fixedEntries? = some others → ∀ entry ∈ entries, ∀ other ∈ others,
      sameExpanded entry.2 (f other.2) = sameExpanded entry.2 other.2) :
    sameExpanded (.map ref entries) c = sameExpanded (.map ref entries) b := by
  simp only [sameExpanded, hentries]
  cases hb : b.fixedEntries? with
  | none => rfl
  | some others =>
    simp only [Option.map_some, Option.any_some, List.length_map, foundIn_map_right (h others hb)]

/-- A handle looks at no more of a container than whether it is empty. -/
theorem sameExpanded_handle (ref : Ref) (kind : Kind) (label : String) {b c : Value}
    (hb : b.kind.comparesByIdentity = false) (hkind : c.kind = b.kind)
    (hitems : c.fixedItems? = b.fixedItems?.map (List.map f))
    (hentries : c.fixedEntries? = b.fixedEntries?.map (List.map (onEntry f))) :
    sameExpanded (.handle ref kind label) c = sameExpanded (.handle ref kind label) b := by
  by_cases heq : kind = b.kind
  · subst heq
    cases hk : b.kind with
    | array => simp [sameExpanded, hitems, Option.any_map]
    | map => simp [sameExpanded, hentries, Option.any_map]
    | _ =>
      rw [hk] at hb
      simp [sameExpanded, hb]
  · have hne : (kind == b.kind) = false := beq_eq_false_iff_ne.mpr heq
    cases kind with
    | array => simp [sameExpanded, hitems, Option.any_map]
    | map => simp [sameExpanded, hentries, Option.any_map]
    | _ => simp only [sameExpanded, hkind, hne, Bool.false_and]

end

theorem hasEvaluable_array {ref : Ref} {items : List Value} :
    (array ref items).hasEvaluable = false ↔ ∀ v ∈ items, v.hasEvaluable = false := by
  simp [hasEvaluable, anyEvaluable_eq_any]

theorem hasEvaluable_map {ref : Ref} {entries : List (String × Value)} :
    (map ref entries).hasEvaluable = false ↔ ∀ entry ∈ entries, entry.2.hasEvaluable = false := by
  simp [hasEvaluable, anyEvaluableEntry_eq_any]

theorem hasEvaluable_fixedItems {v w : Value} {items : List Value} (h : v.hasEvaluable = false)
    (hitems : v.fixedItems? = some items) (hw : w ∈ items) : w.hasEvaluable = false := by
  unfold fixedItems? at hitems
  split at hitems
  · cases hitems
    exact hasEvaluable_array.mp h w hw
  · cases hitems
    cases hw
  · cases hitems

theorem hasEvaluable_fixedEntries {v : Value} {entries : List (String × Value)}
    {entry : String × Value} (h : v.hasEvaluable = false) (hentries : v.fixedEntries? = some entries)
    (he : entry ∈ entries) : entry.2.hasEvaluable = false := by
  unfold fixedEntries? at hentries
  split at hentries
  · cases hentries
    exact hasEvaluable_map.mp h entry he
  · cases hentries
    cases he
  · cases hentries

/-- Nodes and symbols equal nothing that is free of them. -/
theorem sameExpanded_evaluable (a : Value) {b : Value} (ha : a.isEvaluable = true)
    (hb : b.hasEvaluable = false) : sameExpanded a b = false := by
  have hkind : (a.kind == b.kind) = false := by
    rw [beq_eq_false_iff_ne]
    intro h
    have hb' : b.isEvaluable = true := by rw [isEvaluable, ← h]; exact ha
    rw [hasEvaluable_of_isEvaluable hb'] at hb
    cases hb
  cases a with
  | node => simp only [sameExpanded, hkind, Bool.false_and]
  | symbol => simp only [sameExpanded, hkind, Bool.false_and]
  | handle ref kind label =>
    have hkind : (kind == b.kind) = false := hkind
    cases kind with
    | array | map => cases ha
    | _ => simp only [sameExpanded, hkind, Bool.false_and]
  | view ref document path =>
    simp only [sameExpanded, hkind, Bool.false_and]
  | styling ref value => cases value <;> cases ha
  | _ => cases ha

theorem sameExpanded_shape_left (a : Value) :
    ∀ b : Value, b.hasEvaluable = false → sameExpanded a.shape b = sameExpanded a b := by
  induction a using nested_induction with
  | atom v h =>
    intro b hb
    cases v with
    | symbol ref scope name =>
      exact (sameExpanded_evaluable (symbol 0 scope name) rfl hb).trans
        (sameExpanded_evaluable (symbol ref scope name) rfl hb).symm
    | _ => first | rfl | exact h.elim
  | array ref items ih =>
    intro b hb
    simp only [shape, sameExpanded, shapeItems_eq_map]
    cases hitems : b.fixedItems? with
    | none => rfl
    | some others =>
      exact sameItems_map_left fun v hv w hw => ih v hv w (hasEvaluable_fixedItems hb hitems hw)
  | map ref entries ih =>
    intro b hb
    simp only [shape, sameExpanded, shapeEntries_eq_map, List.length_map]
    cases hentries : b.fixedEntries? with
    | none => rfl
    | some others =>
      simp only [Option.any_some]
      rw [foundIn_map_left fun v hv w hw =>
        ih v hv w.2 (hasEvaluable_fixedEntries hb hentries hw)]
  | node ref op operands _ =>
    intro b hb
    exact (sameExpanded_evaluable (node 0 op (shapeItems operands)) rfl hb).trans
      (sameExpanded_evaluable (node ref op operands) rfl hb).symm
  | filter ref name properties _ => exact fun _ _ => rfl

theorem fixedItems_shape (v : Value) : v.shape.fixedItems? = v.fixedItems?.map (List.map shape) := by
  cases v with
  | array => simp [shape, fixedItems?, shapeItems_eq_map]
  | handle ref kind label => cases kind <;> rfl
  | _ => rfl

theorem fixedEntries_shape (v : Value) :
    v.shape.fixedEntries? = v.fixedEntries?.map (List.map (onEntry shape)) := by
  cases v with
  | map => simp [shape, fixedEntries?, shapeEntries_eq_map]
  | handle ref kind label => cases kind <;> rfl
  | _ => rfl

theorem comparesByIdentity_view (ref : Ref) (document : Json) (path : List Char) :
    (view ref document path).kind.comparesByIdentity = false := by
  rcases kind_view ref document path with hkind | hkind <;> rw [hkind] <;> rfl

theorem sameExpanded_shape_right (a : Value) :
    ∀ b : Value, b.hasEvaluable = false → sameExpanded a b.shape = sameExpanded a b := by
  induction a using nested_induction with
  | array ref items ih =>
    intro b hb
    exact sameExpanded_array (fixedItems_shape b) fun others hothers v hv w hw =>
      ih v hv w (hasEvaluable_fixedItems hb hothers hw)
  | map ref entries ih =>
    intro b hb
    exact sameExpanded_map (fixedEntries_shape b) fun others hothers v hv w hw =>
      ih v hv w.2 (hasEvaluable_fixedEntries hb hothers hw)
  | node ref op operands _ =>
    intro b hb
    rw [sameExpanded_evaluable _ rfl hb, sameExpanded_evaluable _ rfl ((hasEvaluable_shape b).trans hb)]
  | filter ref name properties _ =>
    intro b hb
    cases b with
    | node => cases hb
    | symbol => cases hb
    | _ => rfl
  | atom v h =>
    intro b hb
    -- only arrays and maps have another shape here, and an atom asks at most whether they are empty
    cases b with
    | node => cases hb
    | symbol => cases hb
    | array | map =>
      cases v with
      | handle ref' kind label =>
        exact sameExpanded_handle ref' kind label rfl (kind_shape _) (fixedItems_shape _)
          (fixedEntries_shape _)
      | view ref' document path =>
        simp only [shape, sameExpanded, comparesByIdentity_view, Bool.and_false, Bool.false_and]
      | styling ref' value => cases value <;> rfl
      | _ => first | rfl | exact h.elim
    | _ => rfl

/-- **Equality does not tell alike values apart**, as long as the second one is free of nodes and
symbols. -/
theorem same_alike (store : Store) {a a' b b' : Value} (ha : Alike a a') (hb : Alike b b')
    (hfree : b.reachesEvaluable store = false) : a.same store b = a'.same store b' := by
  have hfree' : (b'.expanded store).hasEvaluable = false := by
    rw [← reachesEvaluable_eq, ← hb.reachesEvaluable store]
    exact hfree
  rw [reachesEvaluable_eq] at hfree
  have hshape : ∀ c d : Value, d.hasEvaluable = false →
      sameExpanded c d = sameExpanded c.shape d.shape := fun c d hd => by
    rw [sameExpanded_shape_right c.shape d hd, sameExpanded_shape_left c d hd]
  unfold same
  rw [hshape _ _ hfree, hshape _ _ hfree', show _ = _ from ha.expanded store,
    show _ = _ from hb.expanded store]

end Value

end LiveTemplate
