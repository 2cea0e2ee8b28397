import LiveTemplate.Proofs.Value.Expansion
import Mathlib.Order.Monotone.Basic
/-!
# What a search through a value finds

Before an operator is applied ahead of evaluation its operands are searched twice: for nodes and
symbols, and for impure functions.  A search goes through arrays, maps and views, whether they can be
edited or not, and through the operands of nodes; it does not enter a scope.  Here both searches are
shown to be complete: a search finds nothing exactly if nothing that the value *contains*, at any
depth, is what was sought.

Editable containers may hold each other in a circle, and a search goes into as many of them, one
inside the other, as there are.  Why is that enough?  What one more step finds depends on which
containers had something found in them by then.  There are only finitely many containers; so at some
depth, and at the number of containers at the latest, a further step finds nothing new, and then no
later step does.
-/

set_option autoImplicit false

namespace LiveTemplate

namespace Value

open Json (onEntry)

/-- The operands of a node. -/
def operands : Value → List Value
  | .node _ _ operands => operands
  | _ => []

/-- The value contains the other one, at any depth.  What a scope binds is not contained in the map
that stands for the scope. -/
inductive Contains (store : Store) (v : Value) : Value → Prop
  | refl : Contains store v v
  | item {w x : Value} : Contains store v w → x ∈ w.items store → Contains store v x
  | entry {w : Value} {entry : String × Value} :
      Contains store v w → w.kind ≠ .context → entry ∈ w.entries store → Contains store v entry.2
  | operand {w x : Value} : Contains store v w → x ∈ w.operands → Contains store v x

/-- The value holds the other one, at any depth, and not in an expression. -/
inductive Holds (store : Store) (v : Value) : Value → Prop
  | refl : Holds store v v
  | item {w x : Value} : Holds store v w → x ∈ w.items store → Holds store v x
  | entry {w : Value} {entry : String × Value} :
      Holds store v w → w.kind ≠ .context → entry ∈ w.entries store → Holds store v entry.2

theorem Contains.trans {store : Store} {v w x : Value} (h : Contains store v w)
    (k : Contains store w x) : Contains store v x := by
  induction k with
  | refl => exact h
  | item _ hx ih => exact ih.item hx
  | entry _ hw he ih => exact ih.entry hw he
  | operand _ hx ih => exact ih.operand hx

theorem Holds.trans {store : Store} {v w x : Value} (h : Holds store v w) (k : Holds store w x) :
    Holds store v x := by
  induction k with
  | refl => exact h
  | item _ hx ih => exact ih.item hx
  | entry _ hw he ih => exact ih.entry hw he

theorem Holds.contains {store : Store} {v w : Value} (h : Holds store v w) : Contains store v w := by
  induction h with
  | refl => exact .refl
  | item _ hx ih => exact ih.item hx
  | entry _ hw he ih => exact ih.entry hw he

/-! ## What can be sought -/

mutual
/-- Is an expanded value a hit, or a part of it? -/
def finds (hit : Value → Bool) : Value → Bool
  | .array _ items => findsIn hit items
  | .map _ entries => findsInEntries hit entries
  | .node ref op operands => hit (.node ref op operands) || findsIn hit operands
  | v => hit v

/-- Is there a hit in one of the elements? -/
def findsIn (hit : Value → Bool) : List Value → Bool
  | [] => false
  | v :: rest => finds hit v || findsIn hit rest

/-- Is there a hit in one of the values of the entries? -/
def findsInEntries (hit : Value → Bool) : List (String × Value) → Bool
  | [] => false
  | (_, v) :: rest => finds hit v || findsInEntries hit rest
end

theorem findsIn_eq_any (hit : Value → Bool) (items : List Value) :
    findsIn hit items = (items.map (finds hit)).any id := by
  induction items with
  | nil => rfl
  | cons v rest ih => rw [findsIn, ih, List.map_cons, List.any_cons, id]

theorem findsInEntries_eq_any (hit : Value → Bool) (entries : List (String × Value)) :
    findsInEntries hit entries = (entries.map fun entry => finds hit entry.2).any id := by
  induction entries with
  | nil => rfl
  | cons entry rest ih =>
    obtain ⟨key, v⟩ := entry
    rw [findsInEntries, ih, List.map_cons, List.any_cons, id]

/-- What is neither a scalar nor a container, and no filter either. -/
def IsSingle : Value → Prop
  | .node .. | .symbol .. | .function .. | .easing .. | .context .. | .styling .. | .handle .. => True
  | _ => False

/-- What is sought is not a matter of parts. -/
structure Sought (hit : Value → Bool) : Prop where
  single : ∀ v, hit v = true → v.IsSingle
  node : ∀ ref op operands operands', hit (.node ref op operands) = hit (.node ref op operands')

theorem Sought.not_hit {hit : Value → Bool} (h : Sought hit) {v : Value} (hv : ¬v.IsSingle) :
    hit v = false := by
  by_contra hhit
  exact hv (h.single v ((Bool.not_eq_false _).mp hhit))

theorem sought_isEvaluable : Sought isEvaluable where
  single v hv := by
    cases v with
    | view ref document path =>
      rw [isEvaluable] at hv
      rcases kind_view ref document path with hkind | hkind <;> rw [hkind] at hv <;> cases hv
    | _ => trivial
  node _ _ _ _ := rfl

theorem finds_isEvaluable (v : Value) : finds isEvaluable v = v.hasEvaluable := by
  induction v using nested_induction with
  | atom v h => cases v <;> first | rfl | exact h.elim
  | array ref items ih =>
    simp only [finds, hasEvaluable, findsIn_eq_any, anyEvaluable_eq_any]
    exact congrArg (List.any · id) (List.map_congr_left ih)
  | map ref entries ih =>
    simp only [finds, hasEvaluable, findsInEntries_eq_any, anyEvaluableEntry_eq_any]
    exact congrArg (List.any · id) (List.map_congr_left ih)
  | node ref op operands _ => rfl
  | filter ref name properties _ => rfl

/-- Is this a function that must not be called ahead of evaluation? -/
def isImpureFunction : Value → Bool
  | .function _ builtin => !builtin.isPure
  | _ => false

theorem sought_isImpureFunction : Sought isImpureFunction where
  single v hv := by cases v <;> trivial
  node _ _ _ _ := rfl

theorem finds_isImpureFunction (v : Value) : v.isPureExpanded = !finds isImpureFunction v := by
  have hlist : ∀ values : List Bool, (values.map (!·)).all id = !values.any id := by
    intro values
    simp [List.all_map, List.not_any_eq_all_not]
  induction v using nested_induction with
  | atom v h =>
    cases v with
    | function ref builtin => exact (Bool.not_not _).symm
    | _ => first | rfl | exact h.elim
  | array ref items ih =>
    simp only [finds, isPureExpanded, findsIn_eq_any, allPure_eq_all, ← hlist, List.map_map]
    exact congrArg (List.all · id) (List.map_congr_left ih)
  | map ref entries ih =>
    simp only [finds, isPureExpanded, findsInEntries_eq_any, allPureEntries_eq_all, ← hlist,
      List.map_map]
    exact congrArg (List.all · id) (List.map_congr_left ih)
  | node ref op operands ih =>
    simp only [finds, isImpureFunction, Bool.false_or, isPureExpanded, findsIn_eq_any,
      allPure_eq_all, ← hlist, List.map_map]
    exact congrArg (List.all · id) (List.map_congr_left ih)
  | filter ref name properties _ => rfl

variable {hit : Value → Bool} {store : Store} {depth depth' : Nat}

theorem finds_array {ref : Ref} {items : List Value} :
    finds hit (.array ref items) = false ↔ ∀ v ∈ items, finds hit v = false := by
  simp [finds, findsIn_eq_any]

theorem finds_map {ref : Ref} {entries : List (String × Value)} :
    finds hit (.map ref entries) = false ↔ ∀ entry ∈ entries, finds hit entry.2 = false := by
  simp [finds, findsInEntries_eq_any]

theorem finds_node {ref : Ref} {op : Operator} {operands : List Value} :
    finds hit (.node ref op operands) = false ↔
      hit (.node ref op operands) = false ∧ ∀ v ∈ operands, finds hit v = false := by
  simp [finds, findsIn_eq_any]

/-! ## Copies of documents contain nothing that is sought -/

mutual
theorem Sought.copyJson (h : Sought hit) (ref : Ref) (document : Json) :
    finds hit (copyJson ref document) = false := by
  match document with
  | .null => exact h.not_hit id
  | .bool _ => exact h.not_hit id
  | .int _ => exact h.not_hit id
  | .float _ => exact h.not_hit id
  | .text _ => exact h.not_hit id
  | .array items => exact h.copyItems ref items
  | .object fields => exact h.copyFields ref fields

theorem Sought.copyItems (h : Sought hit) (ref : Ref) (items : List Json) :
    findsIn hit (copyItems ref items) = false := by
  match items with
  | [] => rfl
  | item :: rest =>
    rw [Value.copyItems, findsIn, h.copyJson ref item, h.copyItems ref rest]
    rfl

theorem Sought.copyFields (h : Sought hit) (ref : Ref) (fields : List (String × Json)) :
    findsInEntries hit (copyFields ref fields) = false := by
  match fields with
  | [] => rfl
  | (key, value) :: rest =>
    rw [Value.copyFields, findsInEntries, h.copyJson ref value, h.copyFields ref rest]
    rfl
end

theorem Sought.copyViews (h : Sought hit) (v : Value) : finds hit v.copyViews = finds hit v := by
  induction v using nested_induction with
  | atom v hatom =>
    cases v with
    | view ref document path => exact (h.copyJson _ _).trans (h.not_hit id).symm
    | _ => first | rfl | exact hatom.elim
  | array ref items ih =>
    simp only [Value.copyViews, finds, findsIn_eq_any, copyViewsItems_eq_map, List.map_map]
    exact congrArg (List.any · id) (List.map_congr_left ih)
  | map ref entries ih =>
    simp only [Value.copyViews, finds, findsInEntries_eq_any, copyViewsEntries_eq_map, List.map_map]
    exact congrArg (List.any · id) (List.map_congr_left ih)
  | node ref op operands ih =>
    simp only [Value.copyViews, finds, findsIn_eq_any, copyViewsItems_eq_map, List.map_map]
    rw [h.node ref op (operands.map Value.copyViews) operands]
    exact congrArg (hit _ || List.any · id) (List.map_congr_left ih)
  | filter ref name properties _ => exact (h.not_hit id).trans (h.not_hit id).symm

/-! ## One step of the search -/

/-- Searching the value, through a number of editable containers that hold each other, finds
nothing. -/
def Missed (hit : Value → Bool) (store : Store) (depth : Nat) (v : Value) : Prop :=
  finds hit (freezeTo store depth v) = false

theorem Sought.missed_expanded (h : Sought hit) {v : Value} :
    finds hit (v.expanded store) = false ↔ Missed hit store (store.cells.length + 1) v := by
  rw [expanded, h.copyViews]
  rfl

theorem missed_array {ref : Ref} {items : List Value} :
    Missed hit store depth (.array ref items) ↔ ∀ w ∈ items, Missed hit store depth w := by
  cases depth with
  | zero => exact finds_array
  | succ depth =>
    unfold Missed freezeTo
    rw [freezeWith, freezeItems_eq_map, finds_array, List.forall_mem_map]

theorem missed_map {ref : Ref} {entries : List (String × Value)} :
    Missed hit store depth (.map ref entries) ↔ ∀ entry ∈ entries, Missed hit store depth entry.2 := by
  cases depth with
  | zero => exact finds_map
  | succ depth =>
    unfold Missed freezeTo
    rw [freezeWith, freezeEntries_eq_map, finds_map, List.forall_mem_map]
    rfl

theorem Sought.missed_node (h : Sought hit) {ref : Ref} {op : Operator} {operands : List Value} :
    Missed hit store depth (.node ref op operands) ↔
      hit (.node ref op operands) = false ∧ ∀ w ∈ operands, Missed hit store depth w := by
  cases depth with
  | zero => exact finds_node
  | succ depth =>
    unfold Missed freezeTo
    rw [freezeWith, freezeItems_eq_map, finds_node, List.forall_mem_map, h.node ref op _ operands]

theorem missed_mutableArray {ref : Ref} :
    Missed hit store (depth + 1) (.mutableArray ref) ↔
      ∀ w ∈ store.cellItems ref, Missed hit store depth w := by
  show finds hit (array ref ((store.cellItems ref).map (freezeTo store depth))) = false ↔ _
  rw [finds_array, List.forall_mem_map]
  rfl

theorem missed_mutableMap {ref : Ref} :
    Missed hit store (depth + 1) (.mutableMap ref) ↔
      ∀ entry ∈ store.cellEntries ref, Missed hit store depth entry.2 := by
  show finds hit (map ref ((store.cellEntries ref).map fun entry =>
    (entry.1, freezeTo store depth entry.2))) = false ↔ _
  rw [finds_map, List.forall_mem_map]
  rfl

theorem missed_atom {v : Value} (hv : v.isMutable = false) (hatom : v.IsAtom) :
    Missed hit store depth v ↔ hit v = false := by
  cases depth with
  | zero => cases v <;> first | exact hatom.elim | exact .rfl
  | succ depth => cases v <;> first | exact hatom.elim | exact .rfl | cases hv

/-- Filters are not searched. -/
theorem Sought.missed_filter (h : Sought hit) (ref : Ref) (name : String)
    (properties : List (String × Value)) : Missed hit store depth (.filter ref name properties) := by
  cases depth <;> exact h.not_hit id

section

variable (h : Sought hit)

include h

/-- What is missed in editable containers is missed in all values. -/
theorem missed_of_mutable (hmutable : ∀ v : Value, v.isMutable = true → Missed hit store depth v →
    Missed hit store depth' v) {v : Value} (hv : Missed hit store depth v) :
    Missed hit store depth' v := by
  induction v using nested_induction with
  | array ref items ih =>
    rw [missed_array] at hv ⊢
    exact fun w hw => ih w hw (hv w hw)
  | map ref entries ih =>
    rw [missed_map] at hv ⊢
    exact fun entry he => ih entry he (hv entry he)
  | node ref op operands ih =>
    rw [h.missed_node] at hv ⊢
    exact ⟨hv.1, fun w hw => ih w hw (hv.2 w hw)⟩
  | filter ref name properties _ => exact h.missed_filter ref name properties
  | atom v hatom =>
    by_cases hedit : v.isMutable = true
    · exact hmutable v hedit hv
    · rw [Bool.not_eq_true] at hedit
      rwa [missed_atom hedit hatom] at hv ⊢

/-- What is not contained is missed, if this is so in editable containers. -/
theorem missed_of_contains_within
    (hmutable : ∀ v : Value, v.isMutable = true → (∀ w, Contains store v w → hit w = false) →
      Missed hit store depth v)
    {v : Value} (hv : ∀ w, Contains store v w → hit w = false) : Missed hit store depth v := by
  induction v using nested_induction with
  | array ref items ih =>
    rw [missed_array]
    exact fun w hw => ih w hw fun x hx => hv x ((Contains.refl.item hw).trans hx)
  | map ref entries ih =>
    rw [missed_map]
    exact fun entry he => ih entry he fun x hx =>
      hv x ((Contains.refl.entry (by simp [kind]) he).trans hx)
  | node ref op operands ih =>
    rw [h.missed_node]
    exact ⟨hv _ .refl, fun w hw => ih w hw fun x hx => hv x ((Contains.refl.operand hw).trans hx)⟩
  | filter ref name properties _ => exact h.missed_filter ref name properties
  | atom v hatom =>
    by_cases hedit : v.isMutable = true
    · exact hmutable v hedit hv
    · rw [Bool.not_eq_true] at hedit
      exact (missed_atom hedit hatom).mpr (hv v .refl)

/-- One step more in the containers is one step more in what they hold. -/
theorem missed_step (hstep : ∀ v, Missed hit store depth v → Missed hit store depth' v) {v : Value}
    (hv : Missed hit store (depth + 1) v) : Missed hit store (depth' + 1) v := by
  refine missed_of_mutable h (fun w hw hmissed => ?_) hv
  cases w with
  | mutableArray ref =>
    rw [missed_mutableArray] at hmissed ⊢
    exact fun x hx => hstep x (hmissed x hx)
  | mutableMap ref =>
    rw [missed_mutableMap] at hmissed ⊢
    exact fun entry he => hstep entry.2 (hmissed entry he)
  | _ => cases hw

/-- A search that goes less deep finds less. -/
theorem missed_of_succ {v : Value} (hv : Missed hit store (depth + 1) v) :
    Missed hit store depth v := by
  induction depth generalizing v with
  | zero =>
    refine missed_of_mutable h (fun w hw _ => ?_) hv
    cases w <;> first | exact h.not_hit id | cases hw
  | succ depth ih => exact missed_step h (fun _ => ih) hv

end

/-! ## The depth of the search is enough -/

/-- A step more finds nothing new. -/
def Saturated (hit : Value → Bool) (store : Store) (depth : Nat) : Prop :=
  ∀ v, Missed hit store depth v → Missed hit store (depth + 1) v

/-- The container whose content a cell is. -/
def holder : Ref × Cell → Value
  | (ref, .items _) => .mutableArray ref
  | (ref, .entries _) => .mutableMap ref

/-- The containers in which the search finds something. -/
def foundCells (hit : Value → Bool) (store : Store) (depth : Nat) : List (Ref × Cell) :=
  store.cells.filter fun cell => finds hit (freezeTo store depth (holder cell))

theorem foundCells_sublist (h : Sought hit) (store : Store) (depth : Nat) :
    (foundCells hit store depth).Sublist (foundCells hit store (depth + 1)) := by
  refine List.monotone_filter_right _ fun cell hcell => ?_
  by_contra hnone
  rw [Bool.not_eq_true] at hnone
  have hmissed : Missed hit store depth (holder cell) := missed_of_succ h hnone
  rw [show finds hit (freezeTo store depth (holder cell)) = false from hmissed] at hcell
  cases hcell

/-- An editable container is one of those in the store, or nothing is in it. -/
theorem mem_holders_or_empty {v : Value} (hv : v.isMutable = true) :
    v ∈ store.cells.map holder ∨ v.items store = [] ∧ v.entries store = [] := by
  cases v with
  | mutableArray ref =>
    cases hcell : store.cells.find? (fun cell => cell.1 == ref) with
    | none => exact .inr ⟨by simp [Value.items, Store.cellItems, Store.cell?, hcell], rfl⟩
    | some cell =>
      obtain ⟨ref', content⟩ := cell
      obtain rfl : ref' = ref := by simpa using List.find?_some hcell
      cases content with
      | items values => exact .inl (List.mem_map.mpr ⟨_, List.mem_of_find?_eq_some hcell, rfl⟩)
      | entries values =>
        exact .inr ⟨by simp [Value.items, Store.cellItems, Store.cell?, hcell], rfl⟩
  | mutableMap ref =>
    cases hcell : store.cells.find? (fun cell => cell.1 == ref) with
    | none => exact .inr ⟨rfl, by simp [Value.entries, Store.cellEntries, Store.cell?, hcell]⟩
    | some cell =>
      obtain ⟨ref', content⟩ := cell
      obtain rfl : ref' = ref := by simpa using List.find?_some hcell
      cases content with
      | items values =>
        exact .inr ⟨rfl, by simp [Value.entries, Store.cellEntries, Store.cell?, hcell]⟩
      | entries values => exact .inl (List.mem_map.mpr ⟨_, List.mem_of_find?_eq_some hcell, rfl⟩)
  | _ => cases hv

/-- A container in which something is found is one of those in the store. -/
theorem Sought.holder_of_found (h : Sought hit) {v : Value} (hv : v.isMutable = true)
    (hfound : ¬Missed hit store depth v) : ∃ cell ∈ store.cells, holder cell = v := by
  rcases mem_holders_or_empty hv with hheld | ⟨hitems, hentries⟩
  · exact List.mem_map.mp hheld
  · refine absurd ?_ hfound
    cases depth with
    | zero => cases v <;> first | exact h.not_hit id | cases hv
    | succ depth =>
      cases v with
      | mutableArray ref =>
        change store.cellItems ref = [] at hitems
        simp [missed_mutableArray, hitems]
      | mutableMap ref =>
        change store.cellEntries ref = [] at hentries
        simp [missed_mutableMap, hentries]
      | _ => cases hv

section

variable (h : Sought hit)

include h

theorem saturated_of_length
    (hlength : (foundCells hit store depth).length = (foundCells hit store (depth + 1)).length) :
    Saturated hit store depth := by
  have heq : foundCells hit store depth = foundCells hit store (depth + 1) :=
    (foundCells_sublist h store depth).eq_of_length hlength
  refine fun v => missed_of_mutable h fun w hw hmissed => ?_
  by_contra hfound
  obtain ⟨cell, hcell, rfl⟩ := h.holder_of_found hw hfound
  have hmem : cell ∈ foundCells hit store (depth + 1) :=
    List.mem_filter.mpr ⟨hcell, (Bool.not_eq_false _).mp hfound⟩
  rw [← heq] at hmem
  have hless := (List.mem_filter.mp hmem).2
  rw [show finds hit (freezeTo store depth (holder cell)) = false from hmissed] at hless
  cases hless

theorem Saturated.succ (hs : Saturated hit store depth) : Saturated hit store (depth + 1) :=
  fun _ => missed_step h hs

/-- **As many steps as there are editable containers are enough.** -/
theorem saturated_cells (store : Store) : Saturated hit store store.cells.length := by
  have hlength : ∀ {depth}, Saturated hit store depth →
      (foundCells hit store depth).length = (foundCells hit store (depth + 1)).length := by
    intro depth hs
    refine congrArg List.length (List.filter_congr fun cell _ => ?_)
    cases hfound : finds hit (freezeTo store depth (holder cell)) with
    | false => exact (hs _ hfound).symm
    | true =>
      by_contra hnone
      rw [eq_comm, Bool.not_eq_true] at hnone
      rw [show _ = false from missed_of_succ h hnone] at hfound
      cases hfound
  refine saturated_of_length h (Eq.symm ?_)
  refine Nat.stabilises_of_monotone (f := fun n => (foundCells hit store n).length) ?_ ?_ ?_ (Nat.le_succ _)
  · exact monotone_nat_of_le_succ fun n => (foundCells_sublist h store n).length_le
  · exact fun n => List.length_filter_le _ _
  · exact fun n hn => hlength ((saturated_of_length h hn).succ h)

/-! ## The search is complete -/

/-- The place of a document that a child of a view shows is a scalar or a view. -/
theorem missed_ofJson (ref : Ref) (document : Json) (path : List Char) (place : Json) :
    Missed hit store depth (ofJson ref document path place) := by
  cases place <;> exact Iff.mpr (missed_atom rfl trivial) (h.not_hit id)

theorem missed_item {v w : Value} (hv : Missed hit store (store.cells.length + 1) v)
    (hw : w ∈ v.items store) : Missed hit store (store.cells.length + 1) w := by
  cases v with
  | array ref items => exact missed_array.mp hv w hw
  | mutableArray ref => exact saturated_cells h store w (missed_mutableArray.mp hv w hw)
  | view ref document path =>
    simp only [items] at hw
    split at hw
    · obtain ⟨i, hi, rfl⟩ := List.mem_mapIdx.mp hw
      exact missed_ofJson h _ _ _ _
    · cases hw
  | _ => cases hw

theorem missed_entry {v : Value} {entry : String × Value}
    (hv : Missed hit store (store.cells.length + 1) v) (hkind : v.kind ≠ .context)
    (he : entry ∈ v.entries store) : Missed hit store (store.cells.length + 1) entry.2 := by
  cases v with
  | map ref entries => exact missed_map.mp hv entry he
  | mutableMap ref => exact saturated_cells h store entry.2 (missed_mutableMap.mp hv entry he)
  | view ref document path =>
    simp only [entries] at he
    split at he
    · obtain ⟨field, -, rfl⟩ := List.mem_map.mp he
      exact missed_ofJson h _ _ _ _
    · cases he
  | context ref scope => exact absurd rfl hkind
  | _ => cases he

/-- The search finds nothing that is not contained. -/
theorem missed_of_contains {v : Value} (hv : ∀ w, Contains store v w → hit w = false) :
    Missed hit store depth v := by
  induction depth generalizing v with
  | zero =>
    -- without a step through the store the parts of the value itself are searched
    refine missed_of_contains_within h (fun w hw _ => ?_) hv
    cases w <;> first | exact h.not_hit id | cases hw
  | succ depth ih =>
    refine missed_of_contains_within h (fun w hw hheld => ?_) hv
    cases w with
    | mutableArray ref =>
      rw [missed_mutableArray]
      exact fun x hx => ih fun y hy => hheld y ((Contains.refl.item hx).trans hy)
    | mutableMap ref =>
      rw [missed_mutableMap]
      exact fun entry he => ih fun y hy =>
        hheld y ((Contains.refl.entry (by simp [kind]) he).trans hy)
    | _ => cases hw

theorem not_hit_of_missed {v : Value} (hv : Missed hit store depth v) : hit v = false := by
  cases v with
  | node ref op operands => exact (h.missed_node.mp hv).1
  | array | map | mutableArray | mutableMap | filter => exact h.not_hit id
  | _ => exact Iff.mp (missed_atom rfl trivial) hv

/-- **The search is complete.**  It finds nothing in a value exactly if nothing that the value
contains is a hit. -/
theorem finds_expanded {v : Value} :
    finds hit (v.expanded store) = false ↔ ∀ w, Contains store v w → hit w = false := by
  rw [h.missed_expanded]
  refine ⟨fun hmissed w hw => ?_, missed_of_contains h⟩
  suffices hw : Missed hit store (store.cells.length + 1) w from not_hit_of_missed h hw
  induction hw with
  | refl => exact hmissed
  | item _ hx ih => exact missed_item h ih hx
  | entry _ hkind he ih => exact missed_entry h ih hkind he
  | @operand w x _ hx ih =>
    cases w with
    | node ref op operands => exact (h.missed_node.mp ih).2 x hx
    | _ => cases hx

end

/-! ## Nodes and symbols, and impure functions -/

/-- What is contained is held, or it is an operand in an expression that is held. -/
theorem Contains.held {v w : Value} (h : Contains store v w) :
    Holds store v w ∨ ∃ node, Holds store v node ∧ node.isEvaluable = true := by
  induction h with
  | refl => exact .inl .refl
  | item _ hx ih => exact ih.imp_left fun hw => hw.item hx
  | entry _ hkind he ih => exact ih.imp_left fun hw => hw.entry hkind he
  | @operand w x _ hx ih =>
    refine ih.elim (fun hw => ?_) .inr
    cases w with
    | node ref op operands => exact .inr ⟨_, hw, rfl⟩
    | _ => cases hx

theorem free_iff_missed {v : Value} :
    v.reachesEvaluable store = false ↔ Missed isEvaluable store (store.cells.length + 1) v := by
  rw [reachesEvaluable_eq, ← finds_isEvaluable, sought_isEvaluable.missed_expanded]

/-- **A value is free of expressions** exactly if nothing that it holds is computed by
evaluation. -/
theorem free_iff_holds {v : Value} :
    v.reachesEvaluable store = false ↔ ∀ w, Holds store v w → w.isEvaluable = false := by
  rw [reachesEvaluable_eq, ← finds_isEvaluable, finds_expanded sought_isEvaluable]
  refine ⟨fun h w hw => h w hw.contains, fun h w hw => ?_⟩
  rcases hw.held with hheld | ⟨node, hnode, hevaluable⟩
  · exact h w hheld
  · rw [h node hnode] at hevaluable
    cases hevaluable

theorem free_item {v w : Value} (h : v.reachesEvaluable store = false) (hw : w ∈ v.items store) :
    w.reachesEvaluable store = false := by
  rw [free_iff_holds] at h ⊢
  exact fun x hx => h x ((Holds.refl.item hw).trans hx)

theorem free_entry {v : Value} {entry : String × Value} (h : v.reachesEvaluable store = false)
    (hv : v.kind ≠ .context) (he : entry ∈ v.entries store) :
    entry.2.reachesEvaluable store = false := by
  rw [free_iff_holds] at h ⊢
  exact fun x hx => h x ((Holds.refl.entry hv he).trans hx)

/-- **A value is pure** exactly if nothing that it contains is an impure function. -/
theorem isPure_iff {v : Value} :
    v.isPure store = true ↔ ∀ w, Contains store v w → w.isImpureFunction = false := by
  rw [isPure, finds_isImpureFunction, Bool.not_eq_true', finds_expanded sought_isImpureFunction]


end Value

end LiveTemplate
