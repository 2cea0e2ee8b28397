import LiveTemplate.Proofs.Json.Document
import LiveTemplate.Proofs.Json.Pointer
import LiveTemplate.Proofs.Value.Blur
import LiveTemplate.Proofs.Value.Expansion
import LiveTemplate.Value.Views
/-!
# Values by content

Of an array or a map only its content matters, down to what is neither: no operator tells two arrays
with the same elements apart.  Evaluating a value twice makes other arrays each time, and these are
all that differ.  A value is *bare* when its arrays and maps have no references.

A view of a document is a container too, with another way to keep its content.  The *content* of a
value has copies in the place of views; so a view is like a copy of the document, and so is every
place below.

Both forget something about containers only, and leave nodes, symbols and whatever else compares by
identity as they are.  That is why, unlike for values up to all references, equality needs no
condition.
-/

set_option autoImplicit false

namespace LiveTemplate

open Json (onEntry)

namespace Value

/-! ## Rebuilding containers -/

section

variable (f : Value → Value)

mutual
/-- Take the references from arrays and maps, and change what is inside and neither. -/
def rebuild : Value → Value
  | .array _ items => .array 0 (rebuildItems items)
  | .map _ entries => .map 0 (rebuildEntries entries)
  | v => f v

/-- Rebuild all elements. -/
def rebuildItems : List Value → List Value
  | [] => []
  | v :: rest => rebuild v :: rebuildItems rest

/-- Rebuild the values of all entries. -/
def rebuildEntries : List (String × Value) → List (String × Value)
  | [] => []
  | (key, v) :: rest => (key, rebuild v) :: rebuildEntries rest
end

theorem rebuildItems_eq_map (items : List Value) : rebuildItems f items = items.map (rebuild f) := by
  induction items with
  | nil => rfl
  | cons v rest ih => rw [rebuildItems, ih, List.map_cons]

theorem rebuildEntries_eq_map (entries : List (String × Value)) :
    rebuildEntries f entries = entries.map (onEntry (rebuild f)) := by
  induction entries with
  | nil => rfl
  | cons entry rest ih =>
    obtain ⟨key, v⟩ := entry
    rw [rebuildEntries, ih, List.map_cons]
    rfl

theorem rebuild_array (ref : Ref) (items : List Value) :
    rebuild f (.array ref items) = .array 0 (items.map (rebuild f)) := by
  rw [rebuild, rebuildItems_eq_map]

theorem rebuild_map (ref : Ref) (entries : List (String × Value)) :
    rebuild f (.map ref entries) = .map 0 (entries.map (onEntry (rebuild f))) := by
  rw [rebuild, rebuildEntries_eq_map]

end

/-- Is this a fixed array or a fixed map? -/
def isFixed : Value → Bool
  | .array .. | .map .. => true
  | _ => false

theorem rebuild_leaf (f : Value → Value) {v : Value} (h : v.isFixed = false) : rebuild f v = f v := by
  cases v <;> first | rfl | cases h

/-- Induction along the elements and entries of fixed containers. -/
@[elab_as_elim]
theorem fixed_induction {P : Value → Prop} (leaf : ∀ v : Value, v.isFixed = false → P v)
    (array : ∀ ref items, (∀ v ∈ items, P v) → P (.array ref items))
    (map : ∀ ref entries, (∀ entry ∈ entries, P entry.2) → P (.map ref entries)) (v : Value) :
    P v := by
  induction v using nested_induction with
  | atom v h => cases v <;> first | exact leaf _ rfl | exact h.elim
  | array ref items ih => exact array ref items ih
  | map ref entries ih => exact map ref entries ih
  | node => exact leaf _ rfl
  | filter => exact leaf _ rfl

/-- The value without the references of its arrays and maps. -/
abbrev bare : Value → Value := rebuild id

/-- Rebuilding does not look at the references of containers. -/
theorem rebuild_bare (f : Value → Value) (v : Value) : rebuild f v.bare = rebuild f v := by
  induction v using fixed_induction with
  | leaf v h => rw [bare, rebuild_leaf id h]; rfl
  | array ref items ih =>
    rw [bare, rebuild_array, rebuild_array, rebuild_array, List.map_map]
    exact congrArg _ (List.map_congr_left ih)
  | map ref entries ih =>
    rw [bare, rebuild_map, rebuild_map, rebuild_map, List.map_map]
    exact congrArg _ (List.map_congr_left fun entry he => Prod.ext rfl (ih entry he))

/-! ## Bare values answer alike -/

theorem kind_bare (v : Value) : v.bare.kind = v.kind := by cases v <;> rfl

theorem fixedItems_bare (v : Value) : v.bare.fixedItems? = v.fixedItems?.map (List.map bare) := by
  cases v with
  | array ref items => rw [bare, rebuild_array]; rfl
  | handle ref kind label => cases kind <;> rfl
  | _ => rfl

theorem fixedEntries_bare (v : Value) :
    v.bare.fixedEntries? = v.fixedEntries?.map (List.map (onEntry bare)) := by
  cases v with
  | map ref entries => rw [bare, rebuild_map]; rfl
  | handle ref kind label => cases kind <;> rfl
  | _ => rfl

theorem hasEvaluable_bare (v : Value) : v.bare.hasEvaluable = v.hasEvaluable := by
  induction v using fixed_induction with
  | leaf v h => rw [bare, rebuild_leaf id h]; rfl
  | array ref items ih =>
    simp only [bare, rebuild_array, hasEvaluable, anyEvaluable_eq_any, List.map_map]
    exact congrArg (List.any · id) (List.map_congr_left ih)
  | map ref entries ih =>
    simp only [bare, rebuild_map, hasEvaluable, anyEvaluableEntry_eq_any, List.map_map]
    exact congrArg (List.any · id) (List.map_congr_left ih)

theorem isPureExpanded_bare (v : Value) : v.bare.isPureExpanded = v.isPureExpanded := by
  induction v using fixed_induction with
  | leaf v h => rw [bare, rebuild_leaf id h]; rfl
  | array ref items ih =>
    simp only [bare, rebuild_array, isPureExpanded, allPure_eq_all, List.map_map]
    exact congrArg (List.all · id) (List.map_congr_left ih)
  | map ref entries ih =>
    simp only [bare, rebuild_map, isPureExpanded, allPureEntries_eq_all, List.map_map]
    exact congrArg (List.all · id) (List.map_congr_left ih)

theorem sameExpanded_bare_left (a : Value) : ∀ b, sameExpanded a.bare b = sameExpanded a b := by
  induction a using fixed_induction with
  | leaf v h => intro b; rw [bare, rebuild_leaf id h]; rfl
  | array ref items ih =>
    intro b
    simp only [bare, rebuild_array, sameExpanded]
    simp only [sameItems_map_left fun v hv w _ => ih v hv w]
  | map ref entries ih =>
    intro b
    simp only [bare, rebuild_map, sameExpanded, List.length_map]
    simp only [foundIn_map_left fun v hv w _ => ih v hv w.2]

theorem sameExpanded_bare_right (a : Value) : ∀ b, sameExpanded a b.bare = sameExpanded a b := by
  induction a using nested_induction with
  | array ref items ih =>
    intro b
    exact sameExpanded_array (fixedItems_bare b) fun _ _ v hv w _ => ih v hv w
  | map ref entries ih =>
    intro b
    exact sameExpanded_map (fixedEntries_bare b) fun _ _ v hv w _ => ih v hv w.2
  | node => intro b; cases b <;> rfl
  | filter => intro b; cases b <;> rfl
  | atom v h =>
    intro b
    cases hb : b.isFixed with
    | false => rw [bare, rebuild_leaf id hb]; rfl
    | true =>
      have hcompares : b.kind.comparesByIdentity = false := by cases b <;> first | rfl | cases hb
      -- an atom asks a container at most whether it is empty
      cases v with
      | handle ref kind label =>
        exact sameExpanded_handle ref kind label hcompares (kind_bare b) (fixedItems_bare b)
          (fixedEntries_bare b)
      | view ref document path =>
        cases b with
        | array | map =>
          simp only [bare, rebuild, sameExpanded, comparesByIdentity_view, Bool.and_false,
            Bool.false_and]
        | _ => cases hb
      | styling ref value => cases b <;> cases value <;> rfl
      | _ => first | exact h.elim | (cases b <;> rfl)

/-! ## Expansion goes into containers -/

variable {store : Store}

theorem expanded_array (ref : Ref) (items : List Value) :
    (array ref items).expanded store = array ref (items.map (expanded store)) := by
  show copyViews (freezeWith store _ (array ref items)) = _
  rw [freezeWith, freezeItems_eq_map, copyViews, copyViewsItems_eq_map, List.map_map]
  rfl

theorem expanded_map (ref : Ref) (entries : List (String × Value)) :
    (map ref entries).expanded store = map ref (entries.map (onEntry (expanded store))) := by
  show copyViews (freezeWith store _ (map ref entries)) = _
  rw [freezeWith, freezeEntries_eq_map, copyViews, copyViewsEntries_eq_map, List.map_map]
  rfl

theorem expanded_node (ref : Ref) (op : Operator) (operands : List Value) :
    (node ref op operands).expanded store = node ref op (operands.map (expanded store)) := by
  show copyViews (freezeWith store _ (node ref op operands)) = _
  rw [freezeWith, freezeItems_eq_map, copyViews, copyViewsItems_eq_map, List.map_map]
  rfl

/-- A node is as pure as its operands. -/
theorem isPure_node (ref : Ref) (op : Operator) (operands : List Value) :
    (node ref op operands).isPure store = operands.all fun v => v.isPure store := by
  rw [isPure, expanded_node, isPureExpanded, allPure_eq_all, List.map_map, List.all_map]
  rfl

/-! ## Copies of documents -/

theorem copyItems_eq_map (ref : Ref) (items : List Json) :
    copyItems ref items = items.map (copyJson ref) := by
  induction items with
  | nil => rfl
  | cons item rest ih => rw [copyItems, ih, List.map_cons]

theorem copyFields_eq_map (ref : Ref) (fields : List (String × Json)) :
    copyFields ref fields = fields.map (onEntry (copyJson ref)) := by
  induction fields with
  | nil => rfl
  | cons field rest ih =>
    obtain ⟨key, node⟩ := field
    rw [copyFields, ih, List.map_cons]
    rfl

theorem copyJson_array (ref : Ref) (items : List Json) :
    copyJson ref (.array items) = array ref (items.map (copyJson ref)) := by
  rw [copyJson, copyItems_eq_map]

theorem copyJson_object (ref : Ref) (fields : List (String × Json)) :
    copyJson ref (.object fields) = map ref (fields.map (onEntry (copyJson ref))) := by
  rw [copyJson, copyFields_eq_map]

theorem copyJson_scalar (ref : Ref) {node : Json} (h : node.isContainer = false) :
    (copyJson ref node).kind.isInline = true := by
  cases node <;> first | rfl | cases h

/-- The copy of a scalar is the scalar that a view shows. -/
theorem ofJson_scalar (ref : Ref) (document : Json) (path : List Char) (copy : Ref) {node : Json}
    (h : node.isContainer = false) : ofJson ref document path node = copyJson copy node := by
  cases node <;> first | rfl | cases h

/-- An array or an object is shown by a view. -/
theorem ofJson_container (ref : Ref) (document : Json) (path : List Char) {node : Json}
    (h : node.isContainer = true) : ofJson ref document path node = .view ref document path := by
  cases node <;> first | rfl | cases h

theorem rebuild_copyJson {f : Value → Value} (hf : ∀ v : Value, v.kind.isInline = true → f v = v)
    (ref : Ref) (node : Json) : rebuild f (copyJson ref node) = copyJson 0 node := by
  induction node using Json.nested_induction with
  | scalar node h =>
    have hinline := copyJson_scalar ref h
    have hleaf : (copyJson ref node).isFixed = false := by
      cases node <;> first | rfl | cases h
    rw [rebuild_leaf f hleaf, hf _ hinline]
    cases node <;> first | rfl | cases h
  | array items ih =>
    rw [copyJson_array, rebuild_array, copyJson_array, List.map_map]
    exact congrArg _ (List.map_congr_left ih)
  | object fields ih =>
    rw [copyJson_object, rebuild_map, copyJson_object, List.map_map]
    exact congrArg _ (List.map_congr_left fun field hfield => Prod.ext rfl (ih field hfield))

theorem bare_copyJson (ref : Ref) (node : Json) : (copyJson ref node).bare = copyJson 0 node :=
  rebuild_copyJson (fun _ _ => rfl) ref node

theorem expanded_copyJson (ref : Ref) (node : Json) :
    (copyJson ref node).expanded store = copyJson ref node := by
  induction node using Json.nested_induction with
  | scalar node h => cases node <;> first | rfl | cases h
  | array items ih =>
    rw [copyJson_array, expanded_array, List.map_map]
    exact congrArg _ (List.map_congr_left ih)
  | object fields ih =>
    rw [copyJson_object, expanded_map, List.map_map]
    exact congrArg _ (List.map_congr_left fun field hfield => Prod.ext rfl (ih field hfield))

/-! ## What rebuilding may change -/

/-- What is done to values other than fixed containers is not noticed. -/
structure Unnoticed (store : Store) (f : Value → Value) : Prop where
  outline : ∀ v : Value, v.isFixed = false → (f v).outline = v.outline
  settled : ∀ v : Value, v.isFixed = false → rebuild f (f v) = f v
  items : ∀ v : Value, v.isFixed = false →
    ((f v).items store).map (rebuild f) = (v.items store).map (rebuild f)
  entries : ∀ v : Value, v.isFixed = false →
    ((f v).entries store).map (onEntry (rebuild f)) = (v.entries store).map (onEntry (rebuild f))
  expanded : ∀ v : Value, v.isFixed = false → ((f v).expanded store).bare = (v.expanded store).bare

namespace Unnoticed

variable {f : Value → Value} (h : Unnoticed store f)

include h

theorem rebuild_rebuild (v : Value) : rebuild f (rebuild f v) = rebuild f v := by
  induction v using fixed_induction with
  | leaf v hv => rw [rebuild_leaf f hv, h.settled v hv]
  | array ref items ih =>
    rw [rebuild_array, rebuild_array, List.map_map]
    exact congrArg _ (List.map_congr_left ih)
  | map ref entries ih =>
    rw [rebuild_map, rebuild_map, List.map_map]
    exact congrArg _ (List.map_congr_left fun entry he => Prod.ext rfl (ih entry he))

theorem expanded_rebuild (v : Value) :
    ((rebuild f v).expanded store).bare = (v.expanded store).bare := by
  induction v using fixed_induction with
  | leaf v hv => rw [rebuild_leaf f hv, h.expanded v hv]
  | array ref items ih =>
    simp only [bare, rebuild_array, expanded_array, List.map_map]
    exact congrArg _ (List.map_congr_left ih)
  | map ref entries ih =>
    simp only [bare, rebuild_map, expanded_map, List.map_map]
    exact congrArg _ (List.map_congr_left fun entry he => Prod.ext rfl (ih entry he))

/-- **Rebuilding forgets what no operator looks at.** -/
def blur : Blur store where
  blur := rebuild f
  outline v := by
    cases hv : v.isFixed with
    | false => rw [rebuild_leaf f hv, h.outline v hv]
    | true => cases v <;> first | rfl | cases hv
  items v := by
    cases hv : v.isFixed with
    | false => rw [rebuild_leaf f hv, h.items v hv]
    | true =>
      cases v with
      | array ref items =>
        simp only [rebuild_array, Value.items, List.map_map]
        exact List.map_congr_left fun v _ => h.rebuild_rebuild v
      | map => rfl
      | _ => cases hv
  entries v := by
    cases hv : v.isFixed with
    | false => rw [rebuild_leaf f hv, h.entries v hv]
    | true =>
      cases v with
      | array => rfl
      | map ref entries =>
        simp only [rebuild_map, Value.entries, List.map_map]
        exact List.map_congr_left fun entry _ => Prod.ext rfl (h.rebuild_rebuild entry.2)
      | _ => cases hv
  array hxy := by rw [rebuild_array, rebuild_array, hxy]
  map hxy := by rw [rebuild_map, rebuild_map, hxy]
  Comparable _ := True
  comparable_items _ _ := trivial
  same {a a' b b'} ha hb _ := by
    have hsame : ∀ c d : Value, c.same store d = sameExpanded
        ((rebuild f c).expanded store).bare ((rebuild f d).expanded store).bare := by
      intro c d
      rw [h.expanded_rebuild, h.expanded_rebuild, sameExpanded_bare_right, sameExpanded_bare_left]
      rfl
    rw [hsame, hsame, ha, hb]

variable {v w : Value}

theorem bare_expanded (hvw : h.blur.Like v w) : (v.expanded store).bare = (w.expanded store).bare := by
  have hvw : rebuild f v = rebuild f w := hvw
  rw [← h.expanded_rebuild v, ← h.expanded_rebuild w, hvw]

theorem reachesEvaluable (hvw : h.blur.Like v w) :
    v.reachesEvaluable store = w.reachesEvaluable store := by
  rw [reachesEvaluable_eq, reachesEvaluable_eq, ← hasEvaluable_bare, h.bare_expanded hvw,
    hasEvaluable_bare]

theorem isPure (hvw : h.blur.Like v w) : v.isPure store = w.isPure store := by
  rw [Value.isPure, Value.isPure, ← isPureExpanded_bare, h.bare_expanded hvw, isPureExpanded_bare]

end Unnoticed

/-! ## Bare values -/

theorem unnoticed_id (store : Store) : Unnoticed store id where
  outline _ _ := rfl
  settled _ hv := rebuild_leaf id hv
  items _ _ := rfl
  entries _ _ := rfl
  expanded _ _ := rfl

/-- Forget the references of arrays and maps. -/
def bareBlur (store : Store) : Blur store := (unnoticed_id store).blur

/-! ## Views and copies -/

/-- The copy of what a view shows. -/
def copyShown : Value → Value
  | .view ref document path =>
    if (shown document path).isContainer && (shown document path).isDocument then
      copyJson 0 (shown document path)
    else .view ref document path
  | v => v

/-- The value with copies in the place of views, and without the references of arrays and maps. -/
abbrev content : Value → Value := rebuild copyShown

theorem copyShown_inline {v : Value} (h : v.kind.isInline = true) : copyShown v = v := by
  cases v with
  | view ref document path =>
    rcases kind_view ref document path with hkind | hkind <;> rw [hkind] at h <;> cases h
  | _ => rfl

theorem content_copyJson (ref : Ref) (node : Json) : (copyJson ref node).content = copyJson 0 node :=
  rebuild_copyJson (fun _ => copyShown_inline) ref node

/-- A place that a path leads to. -/
theorem resolve_of_isContainer {document : Json} {path : List Char}
    (h : (shown document path).isContainer = true) :
    Pointer.resolve? path document = some (shown document path) := by
  unfold shown at h ⊢
  cases hresolve : Pointer.resolve? path document with
  | none => rw [hresolve] at h; cases h
  | some node => rfl

/-- **The path one step further leads to the child.** -/
theorem shown_child {document child : Json} {path : List Char} {access : Selector}
    (h : access.child? (shown document path) = some child) :
    shown document (Pointer.extend path access.step) = child := by
  have hstep : ∀ node : Json, access.child? node = some child →
      Pointer.child? access.step node = some child := by
    intro node hnode
    rcases access with name | i <;> cases node <;> first | cases hnode | skip
    case key.object fields =>
      show Json.lookup? (String.ofList name.toList) fields = some child
      rwa [String.ofList_toList]
    case index.array items =>
      show (Pointer.index? (toString i).toList >>= fun i => items[i]?) = some child
      rwa [Pointer.index_toString]
  have hcontainer : (shown document path).isContainer = true := by
    revert h
    cases access <;> cases shown document path <;> first | exact fun _ => rfl | exact nofun
  rw [shown, Pointer.resolve_extend (resolve_of_isContainer hcontainer), hstep _ h]
  rfl

/-- The places of the elements of an array. -/
theorem shown_item {document : Json} {path : List Char} {items : List Json}
    (hshown : shown document path = .array items) {i : Nat} (hi : i < items.length) :
    shown document (Pointer.extend path (toString i).toList) = items[i] := by
  have hchild : (Selector.index i).child? (shown document path) = some items[i] := by
    rw [hshown]
    exact List.getElem?_eq_getElem hi
  have hplace := shown_child hchild
  exact hplace

/-- The places of the fields of an object. -/
theorem shown_field {document : Json} {path : List Char} {fields : List (String × Json)}
    (hshown : shown document path = .object fields) (hnames : (fields.map fun field => field.1).Nodup)
    {field : String × Json} (hfield : field ∈ fields) :
    shown document (Pointer.extend path field.1.toList) = field.2 := by
  have hchild : (Selector.key field.1).child? (shown document path) = some field.2 := by
    rw [hshown]
    exact Json.lookup_of_distinct hnames hfield
  have hplace := shown_child hchild
  exact hplace

/-- What a view shows at a place is like a copy of this place. -/
theorem content_ofJson {ref : Ref} {document node : Json} {path : List Char}
    (hnode : node.isDocument = true) (hshown : shown document path = node) :
    (ofJson ref document path node).content = copyJson 0 node := by
  cases hcontainer : node.isContainer with
  | false => rw [ofJson_scalar ref document path 0 hcontainer, content_copyJson]
  | true =>
    rw [ofJson_container ref document path hcontainer, content, rebuild_leaf copyShown rfl, copyShown, hshown,
      hcontainer, hnode]
    rfl

theorem content_items {ref : Ref} {document : Json} {path : List Char} {items : List Json}
    (hshown : shown document path = .array items) (hdocument : Json.isDocument (.array items) = true) :
    ((view ref document path).items store).map content = items.map (copyJson 0) := by
  simp only [Value.items, hshown]
  refine List.ext_getElem (by simp) fun i hi hi' => ?_
  have hlt : i < items.length := by simpa using hi
  rw [List.getElem_map, List.getElem_mapIdx, List.getElem_map]
  exact content_ofJson (Json.isDocument_array.mp hdocument _ (List.getElem_mem hlt)) (shown_item hshown hlt)

theorem content_entries {ref : Ref} {document : Json} {path : List Char}
    {fields : List (String × Json)} (hshown : shown document path = .object fields)
    (hdocument : Json.isDocument (.object fields) = true) :
    ((view ref document path).entries store).map (onEntry content)
      = fields.map (onEntry (copyJson 0)) := by
  obtain ⟨hascending, hfields⟩ := Json.isDocument_object.mp hdocument
  simp only [Value.entries, hshown, List.map_map]
  refine List.map_congr_left fun field hfield => Prod.ext rfl ?_
  exact content_ofJson (hfields field hfield)
    (shown_field hshown (Json.distinct_of_ascending hascending) hfield)

/-- A value is left as it is, or it is a view and copied. -/
theorem copyShown_cases (v : Value) : copyShown v = v ∨ ∃ ref document path,
    v = .view ref document path ∧ copyShown v = copyJson 0 (shown document path) ∧
      (shown document path).isDocument = true ∧
      ((∃ items, shown document path = .array items) ∨
        ∃ fields, shown document path = .object fields) := by
  cases v with
  | view ref document path =>
    by_cases h : ((shown document path).isContainer && (shown document path).isDocument) = true
    · refine .inr ⟨ref, document, path, rfl, if_pos h, (Bool.and_eq_true_iff.mp h).2, ?_⟩
      have hcontainer := (Bool.and_eq_true_iff.mp h).1
      cases hshown : shown document path with
      | array items => exact .inl ⟨items, rfl⟩
      | object fields => exact .inr ⟨fields, rfl⟩
      | _ => rw [hshown] at hcontainer; cases hcontainer
    · exact .inl (if_neg h)
  | _ => exact .inl rfl

theorem expanded_view (ref : Ref) (document : Json) (path : List Char) :
    (view ref document path).expanded store = copyJson ref (shown document path) := rfl

/-- **Copying what views show is not noticed.** -/
theorem unnoticed_copyShown (store : Store) : Unnoticed store copyShown where
  outline v _ := by
    rcases copyShown_cases v with
      hv | ⟨ref, document, path, rfl, hv, _, ⟨items, hshown⟩ | ⟨fields, hshown⟩⟩
    · rw [hv]
    · rw [hv]
      simp [outline, isComposite, kind, hshown, copyJson]
    · rw [hv]
      simp [outline, isComposite, kind, hshown, copyJson]
  settled v hv := by
    rcases copyShown_cases v with hcopy | ⟨ref, document, path, rfl, hcopy, -⟩
    · rw [hcopy, rebuild_leaf _ hv, hcopy]
    · rw [hcopy]
      exact content_copyJson 0 _
  items v _ := by
    rcases copyShown_cases v with
      hv | ⟨ref, document, path, rfl, hv, hdocument, ⟨items, hshown⟩ | ⟨fields, hshown⟩⟩
    · rw [hv]
    · rw [hshown] at hdocument
      rw [hv, content_items hshown hdocument, hshown, copyJson_array, Value.items, List.map_map]
      exact List.map_congr_left fun item _ => content_copyJson 0 item
    · rw [hv, hshown, copyJson_object]
      simp [Value.items, hshown]
  entries v _ := by
    rcases copyShown_cases v with
      hv | ⟨ref, document, path, rfl, hv, hdocument, ⟨items, hshown⟩ | ⟨fields, hshown⟩⟩
    · rw [hv]
    · rw [hv, hshown, copyJson_array]
      simp [Value.entries, hshown]
    · rw [hshown] at hdocument
      rw [hv, content_entries hshown hdocument, hshown, copyJson_object, Value.entries, List.map_map]
      exact List.map_congr_left fun field _ => Prod.ext rfl (content_copyJson 0 field.2)
  expanded v _ := by
    rcases copyShown_cases v with hv | ⟨ref, document, path, rfl, hv, -⟩
    · rw [hv]
    · rw [hv, expanded_view, expanded_copyJson, bare_copyJson, bare_copyJson]

/-- Forget the difference between a view and a copy, and the references of arrays and maps. -/
def contentBlur (store : Store) : Blur store := (unnoticed_copyShown store).blur

end Value

end LiveTemplate
