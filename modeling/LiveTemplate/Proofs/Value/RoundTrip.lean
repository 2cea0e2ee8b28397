import LiveTemplate.Proofs.Number.Integral
import LiveTemplate.Proofs.Value.Copies
import LiveTemplate.Proofs.Value.Snapshot
import LiveTemplate.Value.Serialization
/-!
# Plain data as a document and back

Plain data is written as a document, and the view of this document is equal to the data, whatever forms of
containers it was made of.  The document of the view is the document again.

Documents and values do not have the same numbers.  A double that is integral and moderate is written as an
integer, so that both zeros are written alike, and an integer is read as a double.  What was written is read
as an equal double, and this one is written in the same way (`toFloat_jsonNumber`, `jsonNumber_toFloat`).
Views are not read and written number by number: their documents are taken as they are.

Containers are followed into the store.  The snapshot that is written and the one that is compared are made
alike, so that one induction along the data says of each part what it is written as and what it is
compared as, at the depth that is left for it (`IsData.same_serialized`).
-/

set_option autoImplicit false

namespace LiveTemplate.Value

open Json (onEntry)

variable {store : Store} {v w : Value} {depth : Nat}

/-! ## Numbers -/

section Numbers

variable {x : Float}

/-- A number is written as it is, or as an integer that is the same number, or else it is a zero. -/
theorem jsonNumber_cases (x : Float) : jsonNumber x = .float x ∨
    (∃ n, jsonNumber x = .int n ∧ Number.ofInt n = x) ∨
      jsonNumber x = .int 0 ∧ (Number.ofInt 0 == x) = true := by
  unfold jsonNumber
  split
  · next hwhole =>
    obtain ⟨hintegral, hsmall⟩ := Bool.and_eq_true_iff.mp hwhole
    rcases Number.ofInt_toInt64 hintegral (of_decide_eq_true hsmall) with hsame | ⟨hzero, hequal⟩
    · exact .inr (.inl ⟨_, rfl, hsame⟩)
    · exact .inr (.inr ⟨congrArg Json.int hzero, hequal⟩)
  · exact .inl rfl

/-- **What was written is read as an equal number.** -/
theorem toFloat_jsonNumber (h : x.isNaN = false) : ((jsonNumber x).toFloat == x) = true := by
  rcases jsonNumber_cases x with heq | ⟨n, heq, hsame⟩ | ⟨heq, hequal⟩
  · rw [heq]
    exact beq_double_self h
  · rw [heq, Json.toFloat, hsame]
    exact beq_double_self h
  · rw [heq]
    exact hequal

/-- Both zeros are written as an integer. -/
theorem jsonNumber_zero {s : Float.Model.UnpackedFloat.Sign} (h : x.toModel.unpack = .zero s) :
    jsonNumber x = .int 0 := by
  have hintegral : Number.isIntegral x = true := by
    unfold Number.isIntegral
    rw [Number.ofFloat_eq, h]
    simp
  have hsmall : decide (x.abs < 9.0e15) = true := by
    rw [← Number.ofModel_unpack x, h]
    cases s <;> rfl
  rw [jsonNumber, hintegral, hsmall, Number.toInt64_zero h]
  rfl

/-- **What was read is written in the same way.** -/
theorem jsonNumber_toFloat (x : Float) : jsonNumber (jsonNumber x).toFloat = jsonNumber x := by
  rcases jsonNumber_cases x with heq | ⟨n, heq, hsame⟩ | ⟨heq, hequal⟩
  · rw [heq]
    exact heq
  · rw [heq, Json.toFloat, hsame, heq]
  · rw [heq]
    exact jsonNumber_zero (s := .positive) rfl

theorem isFinite_toFloat (h : x.isFinite = true) : (jsonNumber x).toFloat.isFinite = true := by
  rcases jsonNumber_cases x with heq | ⟨n, heq, hsame⟩ | ⟨heq, hequal⟩
  · rw [heq]
    exact h
  · rw [heq, Json.toFloat, hsame]
    exact h
  · rw [heq]
    rfl

theorem copyJson_jsonNumber (ref : Ref) (x : Float) :
    copyJson ref (jsonNumber x) = .number (jsonNumber x).toFloat := by
  unfold jsonNumber
  split
  · rfl
  · rfl

theorem ofJson_jsonNumber (ref : Ref) (document : Json) (path : List Char) (x : Float) :
    ofJson ref document path (jsonNumber x) = .number (jsonNumber x).toFloat := by
  unfold jsonNumber
  split
  · rfl
  · rfl

end Numbers

/-! ## Plain data -/

/-- Null, truth values, finite numbers, texts, and containers of these.  A map has its keys in order, and a
view shows an array or an object of a document. -/
inductive IsData (store : Store) : Value → Prop where
  | null : IsData store .null
  | bool (b : Bool) : IsData store (.bool b)
  | number {x : Float} : x.isFinite = true → IsData store (.number x)
  | text (s : String) : IsData store (.text s)
  | array {ref : Ref} {items : List Value} : (∀ v ∈ items, IsData store v) → IsData store (.array ref items)
  | map {ref : Ref} {entries : List (String × Value)} : (entries.map fun entry => entry.1).Pairwise (· < ·) →
    (∀ entry ∈ entries, IsData store entry.2) → IsData store (.map ref entries)
  | mutableArray {ref : Ref} : (∀ v ∈ store.cellItems ref, IsData store v) → IsData store (.mutableArray ref)
  | mutableMap {ref : Ref} : ((store.cellEntries ref).map fun entry => entry.1).Pairwise (· < ·) →
    (∀ entry ∈ store.cellEntries ref, IsData store entry.2) → IsData store (.mutableMap ref)
  | view {ref : Ref} {document : Json} {path : List Char} : (shown document path).isContainer = true →
    (shown document path).isDocument = true → IsData store (.view ref document path)

/-- An entry of a map is a part of it. -/
theorem hasPart_entry {entry : String × Value} (hkind : v.kind = .map) (hkeys : (v.keys store).Pairwise (· < ·))
    (hentry : entry ∈ v.entries store) : HasPart store v entry.2 := by
  rw [HasPart, parts_of_keys hkind hkeys]
  exact List.mem_map_of_mem hentry

theorem IsData.built (h : IsData store v) : Built store v := by
  induction h with
  | null | bool | number | text => exact built_leaf nofun rfl
  | array _ ih => exact .intro nofun ih
  | mutableArray _ ih => exact .intro nofun ih
  | map hkeys _ ih => exact built_of_entries rfl hkeys ih
  | mutableMap hkeys _ ih => exact built_of_entries rfl hkeys ih
  | @view ref document path hcontainer hdocument =>
    rw [← ofJson_container ref document path hcontainer]
    exact built_ofJson hdocument rfl

/-! ## Written to a depth -/

theorem serializeItems_eq_map (items : List Value) : serializeItems items = items.map serializeFrozen := by
  induction items with
  | nil => rfl
  | cons v rest ih => rw [serializeItems, ih, List.map_cons]

theorem serializeEntries_eq_map (entries : List (String × Value)) :
    serializeEntries entries = entries.map (onEntry serializeFrozen) := by
  induction entries with
  | nil => rfl
  | cons entry rest ih =>
    obtain ⟨key, v⟩ := entry
    rw [serializeEntries, ih, List.map_cons]
    rfl

/-- The document of a value that was frozen to a depth. -/
def serializedTo (store : Store) (depth : Nat) (v : Value) : Json := serializeFrozen (freezeTo store depth v)

section SerializedTo

variable (store depth) (ref : Ref)

theorem serializedTo_array (items : List Value) :
    serializedTo store depth (.array ref items) = .array (items.map (serializedTo store depth)) := by
  rw [serializedTo, freezeTo_array, serializeFrozen, serializeItems_eq_map, List.map_map]
  rfl

theorem serializedTo_map (entries : List (String × Value)) :
    serializedTo store depth (.map ref entries) = .object (entries.map (onEntry (serializedTo store depth))) := by
  rw [serializedTo, freezeTo_map, serializeFrozen, serializeEntries_eq_map, List.map_map]
  rfl

theorem serializedTo_mutableArray : serializedTo store (depth + 1) (.mutableArray ref)
    = .array ((store.cellItems ref).map (serializedTo store depth)) := by
  rw [serializedTo, freezeTo, freezeWith, serializeFrozen, serializeItems_eq_map, List.map_map]
  rfl

theorem serializedTo_mutableMap : serializedTo store (depth + 1) (.mutableMap ref)
    = .object ((store.cellEntries ref).map (onEntry (serializedTo store depth))) := by
  rw [serializedTo, freezeTo, freezeWith, serializeFrozen, serializeEntries_eq_map, List.map_map]
  rfl

theorem serializedTo_view (document : Json) (path : List Char) :
    serializedTo store depth (.view ref document path) = shown document path := by
  cases depth <;> rfl

end SerializedTo

/-! ## Equal in both orders -/

/-- Each of two expanded values equals the other one. -/
structure SameBothWays (a b : Value) : Prop where
  forth : sameExpanded a b = true
  back : sameExpanded b a = true

section Lists

variable {α : Type} {f g : α → Value} {ref ref' : Ref}

theorem sameItems_map {items : List α} (h : ∀ item ∈ items, sameExpanded (f item) (g item) = true) :
    sameItems (items.map f) (items.map g) = true := by
  induction items with
  | nil => rfl
  | cons item rest ih =>
    rw [List.map_cons, List.map_cons, sameItems, h item List.mem_cons_self,
      ih fun other hother => h other (List.mem_cons_of_mem _ hother)]
    rfl

theorem foundIn_map {entries : List (String × α)} (hkeys : (entries.map fun entry => entry.1).Nodup)
    (h : ∀ entry ∈ entries, sameExpanded (f entry.2) (g entry.2) = true) :
    foundIn (entries.map (onEntry f)) (entries.map (onEntry g)) = true := by
  rw [foundIn_iff]
  intro _ hmapped
  obtain ⟨entry, hentry, rfl⟩ := List.mem_map.mp hmapped
  refine ⟨g entry.2, ?_, h entry hentry⟩
  show Json.lookup? entry.1 _ = _
  rw [Json.lookup_map, Json.lookup_of_distinct hkeys hentry]
  rfl

/-- Arrays that are made of one list are equal if their elements are. -/
theorem sameBothWays_array {items : List α} (h : ∀ item ∈ items, SameBothWays (f item) (g item)) :
    SameBothWays (.array ref (items.map f)) (.array ref' (items.map g)) where
  forth := same_of_agree (.items rfl rfl (sameItems_map fun item hitem => (h item hitem).forth))
  back := same_of_agree (.items rfl rfl (sameItems_map fun item hitem => (h item hitem).back))

/-- Maps that are made of one list of entries are equal if their values are, and each key stands there once. -/
theorem sameBothWays_map {entries : List (String × α)} (hkeys : (entries.map fun entry => entry.1).Pairwise (· < ·))
    (h : ∀ entry ∈ entries, SameBothWays (f entry.2) (g entry.2)) :
    SameBothWays (.map ref (entries.map (onEntry f))) (.map ref' (entries.map (onEntry g))) where
  forth := same_of_agree (.entries rfl rfl (by simp)
    (foundIn_map (Json.distinct_of_ascending hkeys) fun entry hentry => (h entry hentry).forth))
  back := same_of_agree (.entries rfl rfl (by simp)
    (foundIn_map (Json.distinct_of_ascending hkeys) fun entry hentry => (h entry hentry).back))

end Lists

/-- A document is equal to itself, whatever it is known by. -/
theorem sameBothWays_copyJson {node : Json} (h : node.isDocument = true) (ref ref' : Ref) :
    SameBothWays (copyJson ref node) (copyJson ref' node) := by
  induction node using Json.nested_induction with
  | scalar node hscalar =>
    have hself := sameExpanded_copyJson ref h
    have hcopy : copyJson ref' node = copyJson ref node := by
      cases node <;> first | rfl | cases hscalar
    rw [hcopy]
    exact ⟨hself, hself⟩
  | array items ih =>
    rw [copyJson_array, copyJson_array]
    exact sameBothWays_array fun item hitem => ih item hitem (Json.isDocument_array.mp h item hitem)
  | object fields ih =>
    obtain ⟨hascending, hfields⟩ := Json.isDocument_object.mp h
    rw [copyJson_object, copyJson_object]
    exact sameBothWays_map hascending fun field hfield => ih field hfield (hfields field hfield)

/-! ## Back again -/

/-- The copy of what a value is written as equals the expansion of the value, at any depth that is left for
it. -/
theorem IsData.same_serialized (h : IsData store v) (ref : Ref) (hreached : Reached store depth v) :
    SameBothWays (copyJson ref (serializedTo store depth v)) (expandedTo store depth v) := by
  have hapart := h.built.irrefl
  induction h generalizing depth with
  | null | bool b | text s =>
    cases depth <;> exact ⟨same_of_agree (by constructor), same_of_agree (by constructor)⟩
  | @number x hfinite =>
    have hequal := toFloat_jsonNumber (Number.isNaN_of_isFinite hfinite)
    have hserialized : serializedTo store depth (.number x) = jsonNumber x := by
      cases depth <;> exact if_pos hfinite
    have hexpanded : expandedTo store depth (.number x) = .number x := by cases depth <;> rfl
    rw [hserialized, hexpanded, copyJson_jsonNumber]
    exact ⟨hequal, beq_double_symm hequal⟩
  | @array ref' items hitems ih =>
    rw [serializedTo_array, expandedTo_array, copyJson_array, List.map_map]
    refine sameBothWays_array fun w hw => ?_
    exact ih w hw (hreached.part hapart hw rfl) (hitems w hw).built.irrefl
  | @map ref' entries hkeys hentries ih =>
    rw [serializedTo_map, expandedTo_map, copyJson_object, List.map_map]
    refine sameBothWays_map (f := copyJson ref ∘ serializedTo store depth) hkeys fun entry hentry => ?_
    have hpart : HasPart store (.map ref' entries) entry.2 := hasPart_entry rfl hkeys hentry
    exact ih entry hentry (hreached.part hapart hpart rfl) (hentries entry hentry).built.irrefl
  | @mutableArray ref' hitems ih =>
    obtain ⟨depth, rfl⟩ := Nat.exists_eq_succ_of_ne_zero hreached.depth_pos.ne'
    rw [serializedTo_mutableArray, expandedTo_mutableArray, copyJson_array, List.map_map]
    refine sameBothWays_array fun w hw => ?_
    exact ih w hw (hreached.part hapart hw rfl) (hitems w hw).built.irrefl
  | @mutableMap ref' hkeys hentries ih =>
    obtain ⟨depth, rfl⟩ := Nat.exists_eq_succ_of_ne_zero hreached.depth_pos.ne'
    rw [serializedTo_mutableMap, expandedTo_mutableMap, copyJson_object, List.map_map]
    refine sameBothWays_map (f := copyJson ref ∘ serializedTo store depth) hkeys fun entry hentry => ?_
    have hpart : HasPart store (.mutableMap ref') entry.2 := hasPart_entry rfl hkeys hentry
    exact ih entry hentry (hreached.part hapart hpart rfl) (hentries entry hentry).built.irrefl
  | view _ hdocument =>
    rw [serializedTo_view, expandedTo_view]
    exact sameBothWays_copyJson hdocument _ _

/-- What a document shows is written as this document, if it is an array or an object. -/
theorem serialize_ofJson {document : Json} (h : document.isContainer = true) (ref : Ref) :
    (ofJson ref document [] document).serialize store = document := by
  rw [ofJson_container ref document [] h]
  rfl

theorem serialize_number {x : Float} (h : x.isFinite = true) : (number x).serialize store = jsonNumber x := if_pos h

/-- What was read back is written as before. -/
theorem IsData.serialize_again (h : IsData store v) (ref : Ref) :
    (ofJson ref (v.serialize store) [] (v.serialize store)).serialize store = v.serialize store := by
  cases h with
  | null | bool | text => rfl
  | @number x hfinite =>
    rw [serialize_number hfinite, ofJson_jsonNumber, serialize_number (isFinite_toFloat hfinite), jsonNumber_toFloat]
  | view hcontainer => exact serialize_ofJson hcontainer ref
  | array | map | mutableArray | mutableMap => exact serialize_ofJson rfl ref

/-- **Plain data comes back from its document.**  What a document of plain data shows is equal to the data, in
both orders, and its document is the same one. -/
theorem IsData.serialize_roundTrip (h : IsData store v) (ref : Ref) :
    let document := v.serialize store
    let back := ofJson ref document [] document
    back.same store v = true ∧ v.same store back = true ∧ back.serialize store = document := by
  intro document back
  have hexpanded : back.expanded store = copyJson ref document := expandedTo_ofJson store _ ref rfl
  have hsame : SameBothWays (copyJson ref document) (v.expanded store) := h.same_serialized ref (.start _ _)
  refine ⟨?_, ?_, h.serialize_again ref⟩
  · rw [same, hexpanded]
    exact hsame.forth
  · rw [same, hexpanded]
    exact hsame.back

/-- A map of a negative zero, an editable array and a part of a document comes back from its document. -/
theorem IsData.serialize_roundTrip_mixed :
    let v : Value := .map 3
      [("n", .number (-0.0)), ("xs", .mutableArray 2), ("ys", .view 4 (.array [.array [.int 7, .null]]) ['/', '0'])]
    let document : Json := .object [("n", .int 0), ("xs", .array [.int 1]), ("ys", .array [.int 7, .null])]
    let back := ofJson 5 document [] document
    v.serialize tray = document ∧
      back.same tray v = true ∧ v.same tray back = true ∧ back.serialize tray = document := by
  intro v document back
  have hzero : (Value.number (-0.0)).serialize tray = .int 0 := by
    rw [serialize_number rfl, jsonNumber_zero (s := .negative) rfl]
  have hdocument : v.serialize tray = document := by
    show Json.object [("n", (Value.number (-0.0)).serialize tray), _, _] = document
    rw [hzero]
    rfl
  have hnumbers : IsData tray (.number (-0.0)) ∧ IsData tray (.mutableArray 2) :=
    ⟨.number rfl, .mutableArray (List.forall_mem_singleton.mpr (.number rfl))⟩
  have hdata : IsData tray v := by
    refine .map (by decide) fun entry hentry => ?_
    simp only [List.mem_cons, List.not_mem_nil, or_false] at hentry
    rcases hentry with rfl | rfl | rfl
    · exact hnumbers.1
    · exact hnumbers.2
    · exact .view rfl rfl
  have hback := hdata.serialize_roundTrip 5
  rw [hdocument] at hback
  exact ⟨hdocument, hback⟩

end LiveTemplate.Value
