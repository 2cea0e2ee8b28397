import LiveTemplate.Proofs.Number.Whole
import LiveTemplate.Proofs.Value.Content
import LiveTemplate.Proofs.Value.Equivalence
/-!
# A view cannot be told from a copy

A view of a document and an array or map that the document was copied into have the same content.
So have their children, one step down and along any path; and values with the content of a document
answer all questions alike.  Equality is the one that asks for a document: its numbers are numbers,
and equal themselves.
-/

set_option autoImplicit false

namespace LiveTemplate

open Json (onEntry)

/-! ## Down a document -/

namespace Json

/-- Step after step down a document, null where there is nothing. -/
def follow (path : List Selector) (node : Json) : Json :=
  path.foldl (fun node access => (access.child? node).getD .null) node

/-- What is inside a document is a document. -/
theorem isDocument_child {node : Json} (h : node.isDocument = true) (access : Selector) :
    ((access.child? node).getD .null).isDocument = true := by
  cases hchild : access.child? node with
  | none => rfl
  | some child =>
    cases access with
    | key name =>
      cases node with
      | object fields =>
        obtain ⟨field, hfield, rfl⟩ := lookup_mem hchild
        exact (isDocument_object.mp h).2 field hfield
      | _ => cases hchild
    | index i =>
      cases node with
      | array items => exact isDocument_array.mp h child (List.mem_of_getElem? hchild)
      | _ => cases hchild

theorem isDocument_follow {node : Json} (h : node.isDocument = true) (path : List Selector) :
    (node.follow path).isDocument = true := by
  induction path generalizing node with
  | nil => exact h
  | cons access rest ih => exact ih (isDocument_child h access)

end Json

namespace Value

variable {store : Store} {v w : Value} {node : Json}

/-- A step down the copy of a document leads to the copy of the child. -/
theorem access_copyJson (ref : Ref) (node : Json) (access : Selector) :
    (copyJson ref node).access store access = copyJson ref ((access.child? node).getD .null) := by
  cases access with
  | key name =>
    show (copyJson ref node).field store name = _
    cases node with
    | object fields =>
      rw [copyJson_object, Value.field, Value.entries, Json.lookup_map]
      show _ = copyJson ref ((Json.lookup? name fields).getD .null)
      cases Json.lookup? name fields <;> rfl
    | _ => rfl
  | index i =>
    show (copyJson ref node).item store i = _
    cases node with
    | array items =>
      rw [copyJson_array, Value.item, Value.items, List.getElem?_map]
      show _ = copyJson ref (items[i]?.getD .null)
      cases items[i]? <;> rfl
    | _ => rfl

/-- The value has the content of a place in a document. -/
theorem like_copyJson : (contentBlur store).Like v (copyJson 0 node) ↔ v.content = copyJson 0 node := by
  show v.content = (copyJson 0 node).content ↔ _
  rw [content_copyJson]

theorem content_access (h : v.content = copyJson 0 node) (access : Selector) :
    (v.access store access).content = copyJson 0 ((access.child? node).getD .null) := by
  have hlike : (contentBlur store).Like v (copyJson 0 node) := like_copyJson.mpr h
  have hchild : (contentBlur store).Like (v.access store access)
      (copyJson 0 ((access.child? node).getD .null)) := by
    rw [← @access_copyJson store]
    cases access with
    | key name => exact hlike.field name
    | index i => exact hlike.item i
  exact like_copyJson.mp hchild

/-- **Values with the content of a document keep it along every path.** -/
theorem content_follow (h : v.content = copyJson 0 node) (path : List Selector) :
    (v.follow store path).content = copyJson 0 (node.follow path) := by
  induction path generalizing v node with
  | nil => exact h
  | cons access rest ih => exact ih (content_access h access)

/-- An array or map that a document was copied into has its content, whatever references were
taken. -/
theorem content_of_bare (h : v.bare = copyJson 0 node) : v.content = copyJson 0 node := by
  rw [← content_copyJson 0 node, ← h, content, rebuild_bare]

/-! ## Documents equal themselves -/

theorem sameExpanded_copyJson (ref : Ref) {node : Json} (h : node.isDocument = true) :
    sameExpanded (copyJson ref node) (copyJson ref node) = true := by
  induction node using Json.nested_induction with
  | scalar node hscalar =>
    cases node with
    | null => rfl
    | bool b => exact beq_self_eq_true b
    | int n => exact beq_double_self (Number.isNaN_ofInt n)
    | float x => exact beq_double_self (by simpa [Json.isDocument] using h)
    | text s => exact beq_self_eq_true s
    | _ => cases hscalar
  | array items ih =>
    rw [copyJson_array]
    refine sameItems_self fun v hv => ?_
    obtain ⟨item, hitem, rfl⟩ := List.mem_map.mp hv
    exact ih item hitem (Json.isDocument_array.mp h item hitem)
  | object fields ih =>
    obtain ⟨hascending, hfields⟩ := Json.isDocument_object.mp h
    rw [copyJson_object]
    refine same_of_agree (.entries rfl rfl rfl (foundIn_self ?_ fun entry he => ?_))
    · rw [List.map_map]
      exact Json.distinct_of_ascending hascending
    · obtain ⟨field, hfield, rfl⟩ := List.mem_map.mp he
      exact ih field hfield (hfields field hfield)

/-! ## Questions to a value -/

/-- No question to a value tells the two apart, and they equal each other. -/
structure Indistinct (store : Store) (v w : Value) : Prop where
  kind : v.kind = w.kind
  size : v.size store = w.size store
  isEmpty : v.isEmpty store = w.isEmpty store
  truthy : v.truthy = w.truthy
  has : ∀ key, v.has store key = w.has store key
  keys : v.keys store = w.keys store
  equal : v.same store w = true ∧ w.same store v = true
  left : ∀ other, v.same store other = w.same store other
  right : ∀ other : Value, other.same store v = other.same store w

/-- **Values with the content of a document cannot be told apart.** -/
theorem indistinct_of_content (hnode : node.isDocument = true) (hv : v.content = copyJson 0 node)
    (hw : w.content = copyJson 0 node) : Indistinct store v w := by
  have hlike : (contentBlur store).Like v w := hv.trans hw.symm
  have hself : (copyJson 0 node).same store (copyJson 0 node) = true := by
    rw [same, expanded_copyJson]
    exact sameExpanded_copyJson 0 hnode
  have hsame : ∀ {a b : Value}, a.content = copyJson 0 node → b.content = copyJson 0 node →
      a.same store b = true := fun ha hb =>
    ((contentBlur store).same (like_copyJson.mpr ha) (like_copyJson.mpr hb) trivial).trans hself
  exact {
    kind := hlike.kind
    size := hlike.size
    isEmpty := hlike.isEmpty
    truthy := hlike.truthy
    has := hlike.has
    keys := hlike.keys
    equal := ⟨hsame hv hw, hsame hw hv⟩
    left := fun _ => (contentBlur store).same hlike rfl trivial
    right := fun _ => (contentBlur store).same rfl hlike trivial }

/-- **A view cannot be told from a copy, along any path.** -/
theorem indistinct_follow {document : Json} (hdocument : document.isDocument = true) {copy : Value}
    (hcopy : copy.bare = copyJson 0 document) (ref : Ref) (path : List Selector) :
    Indistinct store ((ofJson ref document [] document).follow store path) (copy.follow store path) :=
  indistinct_of_content (Json.isDocument_follow hdocument path)
    (content_follow (content_ofJson hdocument rfl) path) (content_follow (content_of_bare hcopy) path)

end Value

end LiveTemplate
