import LiveTemplate.Proofs.Value.Symbols
import LiveTemplate.Proofs.Value.Traversal
/-!
# Walks through a snapshot

A walk is given the values themselves, and it has no end in a container that holds itself.  Some visitors ask
only for what a value has in common with its snapshot; they are sent through the snapshot instead, which has
an end.  For a value that is `Built`, this is the same walk.

A value is built exactly if none of the containers below it holds itself (`built_iff`).
-/

set_option autoImplicit false

namespace LiveTemplate.Value

open Relation (ReflTransGen TransGen)

variable {store : Store} {v w : Value} {values order : List Value} {depth : Nat}

/-! ## The parts of a snapshot -/

/-- The first value has the second one as a part. -/
def HasPart (store : Store) (v w : Value) : Prop := w ∈ v.parts store

/-- The parts of an expanded value. -/
def expandedParts : Value → List Value
  | .array _ items => items
  | .map _ entries => entries.map fun entry => entry.2
  | .node _ _ operands => operands
  | _ => []

theorem expandedTo_node (store : Store) (depth : Nat) (ref : Ref) (op : Operator) (operands : List Value) :
    expandedTo store depth (node ref op operands) = node ref op (operands.map (expandedTo store depth)) := by
  rw [expandedTo, freezeTo_node, copyViews, copyViewsItems_eq_map, List.map_map]
  rfl

/-- Induction along the parts of expanded values. -/
@[elab_as_elim]
theorem expanded_induction {P : Value → Prop} (h : ∀ a, (∀ x ∈ expandedParts a, P x) → P a) (a : Value) : P a := by
  induction a using nested_induction with
  | atom a hatom =>
    refine h a ?_
    cases a <;> first | exact hatom.elim | exact fun _ hx => nomatch hx
  | array ref items ih => exact h _ ih
  | map ref entries ih =>
    refine h _ fun x hx => ?_
    obtain ⟨entry, hentry, rfl⟩ := List.mem_map.mp hx
    exact ih entry hentry
  | node ref op operands ih => exact h _ ih
  | filter ref name properties _ => exact h _ fun _ hx => nomatch hx

/-- **The parts of an expansion** are the expansions of the parts. -/
theorem expandedParts_expandedTo (hdepth : 0 < depth)
    (hkeys : v.kind = .map → (v.keys store).Pairwise (· < ·)) :
    ∃ depth', Descends v depth depth' ∧
      expandedParts (expandedTo store depth v) = (v.parts store).map (expandedTo store depth') := by
  rw [← children_eq_parts hkeys]
  obtain ⟨depth, rfl⟩ := Nat.exists_eq_succ_of_ne_zero hdepth.ne'
  cases v with
  | node ref op operands => exact ⟨_, rfl, congrArg expandedParts (expandedTo_node ..)⟩
  | array ref items =>
    refine ⟨_, rfl, ?_⟩
    rw [expandedTo_array]
    simp [expandedParts, children, Value.items, entries]
  | mutableArray ref =>
    refine ⟨depth, rfl, ?_⟩
    rw [expandedTo_mutableArray]
    simp [expandedParts, children, Value.items, entries]
  | map ref entries =>
    refine ⟨_, rfl, ?_⟩
    rw [expandedTo_map]
    simp [expandedParts, children, items, Value.entries, Json.onEntry]
  | mutableMap ref =>
    refine ⟨depth, rfl, ?_⟩
    rw [expandedTo_mutableMap]
    simp [expandedParts, children, items, entries, Json.onEntry]
  | view ref document path =>
    have hexpanded := expandedTo_view store (depth + 1) ref document path
    cases hshown : shown document path with
    | array values =>
      rw [hshown, copyJson_array] at hexpanded
      obtain ⟨depth', hdescends, hitems⟩ := fixedItems_expandedTo (congrArg fixedItems? hexpanded)
      refine ⟨depth', hdescends, ?_⟩
      rw [hexpanded, expandedParts, hitems]
      simp [children, entries, hshown]
    | object fields =>
      rw [hshown, copyJson_object] at hexpanded
      obtain ⟨-, depth', hdescends, hentries⟩ :=
        fixedEntries_expandedTo (fun hkind => (hkeys hkind).imp fun hlt => hlt.ne) (congrArg fixedEntries? hexpanded)
      refine ⟨depth', hdescends, ?_⟩
      rw [hexpanded, expandedParts, hentries]
      simp [children, items, hshown, Json.onEntry]
    | _ =>
      rw [hshown] at hexpanded
      refine ⟨_, rfl, ?_⟩
      rw [hexpanded]
      simp [children, items, entries, hshown, copyJson, expandedParts]
  | _ => exact ⟨_, rfl, rfl⟩

/-- An editable container that has parts has its cell in the store. -/
theorem HasPart.holder (hw : HasPart store v w) (hv : v.isMutable = true) : v ∈ store.cells.map holder := by
  rcases mem_holders_or_empty hv with hheld | ⟨hitems, hentries⟩
  · exact hheld
  · unfold HasPart at hw
    cases v with
    | mutableArray ref =>
      have hnone : w ∈ (mutableArray ref).items store := hw
      rw [hitems] at hnone
      cases hnone
    | mutableMap ref =>
      have hnone : w ∈ ((mutableMap ref).keys store).map fun key => (mutableMap ref).field store key := hw
      rw [keys, hentries] at hnone
      cases hnone
    | _ => cases hv

/-- Some way leads to the value from one that it is a part of, and leaves it this depth. -/
def Reached (store : Store) (depth : Nat) (v : Value) : Prop :=
  ∃ opened, Entered (HasPart store) store opened depth v

theorem Reached.start (store : Store) (v : Value) : Reached store (store.cells.length + 1) v := ⟨[], .start _ _ _⟩

theorem Reached.depth_pos (h : Reached store depth v) : 0 < depth := by
  obtain ⟨_, hentered⟩ := h
  exact hentered.depth_pos

theorem Reached.part {depth' : Nat} (h : Reached store depth v) (hv : ¬TransGen (HasPart store) v v)
    (hw : HasPart store v w) (hdescends : Descends v depth depth') : Reached store depth' w := by
  obtain ⟨_, hentered⟩ := h
  exact hentered.step hv hw hw.holder hdescends

/-! ## What is built -/

/-- What is built does not hold itself. -/
theorem Built.irrefl (h : Built store v) : ¬TransGen (HasPart store) v v := by
  induction h with
  | intro _ _ ih =>
    intro hloop
    obtain ⟨w, hw, hback⟩ := TransGen.head'_iff.mp hloop
    exact ih w hw (TransGen.tail' hback hw)

/-- A map is built if its keys are in order and its values are built. -/
theorem built_of_entries (hkind : v.kind = .map) (hkeys : (v.keys store).Pairwise (· < ·))
    (h : ∀ entry ∈ v.entries store, Built store entry.2) : Built store v := by
  refine .intro (fun _ => hkeys) ?_
  rw [parts_of_keys hkind hkeys]
  exact List.forall_mem_map.mpr h

/-- What a document shows is built. -/
theorem built_ofJson {ref : Ref} {document node : Json} {path : List Char} (hnode : node.isDocument = true)
    (hshown : shown document path = node) : Built store (ofJson ref document path node) := by
  induction node using Json.nested_induction generalizing path with
  | scalar node hscalar =>
    cases node <;> first | exact built_leaf nofun rfl | cases hscalar
  | array items ih =>
    show Built store (view ref document path)
    have hkeys : (view ref document path).kind = .map → ((view ref document path).keys store).Pairwise (· < ·) := by
      simp [kind, hshown]
    refine .intro hkeys fun w hw => ?_
    rw [← children_eq_parts hkeys] at hw
    simp only [children, Value.items, entries, hshown, List.map_nil, List.append_nil, List.mem_mapIdx] at hw
    obtain ⟨i, hi, rfl⟩ := hw
    have hitem := Json.isDocument_array.mp hnode _ (List.getElem_mem hi)
    exact ih _ (List.getElem_mem hi) hitem (shown_item hshown hi)
  | object fields ih =>
    show Built store (view ref document path)
    obtain ⟨hascending, hfields⟩ := Json.isDocument_object.mp hnode
    have hkeys : ((view ref document path).keys store).Pairwise (· < ·) := by
      simpa [keys, entries, hshown, Function.comp_def] using hascending
    refine built_of_entries (by simp only [kind, hshown]) hkeys ?_
    simp only [entries, hshown, List.forall_mem_map]
    intro field hfield
    have hplace := shown_field hshown (Json.distinct_of_ascending hascending) hfield
    exact ih field hfield (hfields field hfield) hplace

/-- A value is built if its maps have their keys in order and nothing below it holds itself. -/
theorem built_of_apart (hreached : Reached store depth v)
    (h : ∀ w, ReflTransGen (HasPart store) v w →
      (w.kind = .map → (w.keys store).Pairwise (· < ·)) ∧ ¬TransGen (HasPart store) w w) : Built store v := by
  suffices hall : ∀ a depth v, a = expandedTo store depth v → Reached store depth v →
      (∀ w, ReflTransGen (HasPart store) v w →
        (w.kind = .map → (w.keys store).Pairwise (· < ·)) ∧ ¬TransGen (HasPart store) w w) → Built store v from
    hall _ depth v rfl hreached h
  intro a
  induction a using expanded_induction with
  | h a ih =>
    rintro depth v rfl hreached h
    obtain ⟨hkeys, hapart⟩ := h v .refl
    obtain ⟨depth', hdescends, hparts⟩ := expandedParts_expandedTo hreached.depth_pos hkeys
    refine .intro hkeys fun w hw => ?_
    have hbelow := hreached.part hapart hw hdescends
    refine ih (expandedTo store depth' w) ?_ depth' w rfl hbelow fun x hx => h x (hx.head hw)
    rw [hparts]
    exact List.mem_map_of_mem hw

/-- **What is built** has its keys in order and does not hold itself, nor does anything below it. -/
theorem built_iff : Built store v ↔ ∀ w, ReflTransGen (HasPart store) v w →
    (w.kind = .map → (w.keys store).Pairwise (· < ·)) ∧ ¬TransGen (HasPart store) w w := by
  refine ⟨fun h w hw => ?_, built_of_apart (.start _ _)⟩
  have hw : Built store w := by
    induction hw with
    | refl => exact h
    | tail _ hpart ih => exact ih.parts _ hpart
  exact ⟨hw.keys, hw.irrefl⟩

/-! ## The same walk -/

variable {σ : Type} {visit : σ → Value → σ} {isFinal : σ → Bool}

theorem walkEntries_eq_walkItems (entries : List (String × Value)) (state : σ) :
    walkEntries visit isFinal state entries = walkItems visit isFinal state (entries.map fun entry => entry.2) := by
  induction entries generalizing state with
  | nil => rfl
  | cons entry rest ih =>
    rw [walkEntries, List.map_cons, walkItems]
    simp only [ih]

/-- A walk visits an expanded value and goes on to its parts. -/
theorem walkExpanded_eq (state : σ) (a : Value) : walkExpanded visit isFinal state a
    = if isFinal (visit state a) then visit state a
      else walkItems visit isFinal (visit state a) (expandedParts a) := by
  cases a with
  | map ref entries => rw [walkExpanded, walkEntries_eq_walkItems]; rfl
  | array ref items => rw [walkExpanded]; rfl
  | node ref op operands => rw [walkExpanded]; rfl
  | _ => exact (ite_self _).symm

theorem walkItems_preOrder {expand : Value → Value} (horder : PreOrder store values order)
    (h : ∀ v ∈ values, ∀ order, PreOrder store [v] order → ∀ state,
      walkExpanded visit isFinal state (expand v) = visitAll visit isFinal state order) (state : σ) :
    walkItems visit isFinal state (values.map expand) = visitAll visit isFinal state order := by
  induction values generalizing order state with
  | nil =>
    cases horder
    rfl
  | cons v rest ih =>
    cases horder with
    | @cons _ _ inner later hparts hrest =>
      have hv := h v List.mem_cons_self _ (.cons hparts .nil) state
      rw [List.append_nil] at hv
      rw [List.map_cons, walkItems, hv, ← List.cons_append, visitAll_append (List.cons_ne_nil _ _),
        ih hrest fun w hw => h w (List.mem_cons_of_mem _ hw)]

/-- The visitor does not tell an expansion from the value itself, for nothing that is below the value. -/
def Blind (store : Store) (visit : σ → Value → σ) (v : Value) : Prop :=
  ∀ w, ReflTransGen (HasPart store) v w → ∀ depth, 0 < depth → ∀ state,
    visit state (expandedTo store depth w) = visit state w

theorem Built.walkExpanded (h : Built store v) (hreached : Reached store depth v)
    (hblind : Blind store visit v) (horder : PreOrder store [v] order) (state : σ) :
    walkExpanded visit isFinal state (expandedTo store depth v) = visitAll visit isFinal state order := by
  induction h generalizing order depth state with
  | @intro v hkeys hbuilt ih =>
    have hv : Built store v := .intro hkeys hbuilt
    cases horder with
    | @cons _ _ inner later hparts hnil =>
      cases hnil
      obtain ⟨depth', hdescends, heq⟩ := expandedParts_expandedTo hreached.depth_pos hkeys
      have hinner (state : σ) : walkItems visit isFinal state ((v.parts store).map (expandedTo store depth'))
          = visitAll visit isFinal state inner := by
        refine walkItems_preOrder hparts (fun w hw order horder state => ?_) state
        exact ih w hw (hreached.part hv.irrefl hw hdescends) (fun x hx => hblind x (hx.head hw)) horder state
      rw [walkExpanded_eq, hblind v .refl depth hreached.depth_pos, heq, hinner, List.append_nil, visitAll]

/-- **A walk through the snapshot is a walk through the value**, for a visitor that does not tell the two
apart. -/
theorem Built.traverse_eq_walk (h : Built store v) (hblind : Blind store visit v) (state : σ) :
    Value.traverse store visit isFinal state v = some (v.walk store visit isFinal state) := by
  obtain ⟨order, horder⟩ := h.exists_preOrder
  rw [horder.traverse h]
  exact congrArg some (h.walkExpanded (.start _ _) hblind horder state).symm

/-- The names of an expression are those that a walk through the expression itself lists. -/
theorem Built.symbols (h : Built store v) :
    Value.traverse store listName (fun _ => false) [] v = some (v.symbols store) := by
  refine h.traverse_eq_walk (fun w _ depth _ names => ?_) []
  have hname : (expandedTo store depth w).symbolName? = w.symbolName? := by
    cases w with
    | view ref document path =>
      rw [expandedTo_view]
      cases shown document path <;> rfl
    | _ => cases depth <;> rfl
  simp only [listName, hname]

/-- Whether a value reaches one that is computed by evaluation is what a walk through the value itself
finds, if its views show arrays and objects. -/
theorem Built.reachesEvaluable (h : Built store v)
    (hshows : ∀ ref document path, ReflTransGen (HasPart store) v (.view ref document path) →
      (shown document path).isContainer = true) :
    Value.traverse store find id false v = some (v.reachesEvaluable store) := by
  refine h.traverse_eq_walk (fun w hw depth _ found => ?_) false
  have hkind : (expandedTo store depth w).isEvaluable = w.isEvaluable := by
    cases w with
    | view ref document path =>
      have hcontainer := hshows ref document path hw
      rw [expandedTo_view]
      unfold isEvaluable
      cases hshown : shown document path <;> rw [hshown] at hcontainer <;> cases hcontainer <;>
        simp [copyJson, kind, hshown]
    | _ => cases depth <;> rfl
  simp only [find, hkind]

end LiveTemplate.Value
