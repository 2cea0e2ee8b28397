import LiveTemplate.Proofs.Json.Fields
import Mathlib.Data.String.Basic
/-!
# What counts as a document

A JSON document that was read has numbers that are numbers, and the fields of an object stand in the
order of their names, each name once.  So looking a name up finds its field.
-/

set_option autoImplicit false

namespace LiveTemplate.Json

/-- Induction along the nesting of a document. -/
@[elab_as_elim]
theorem nested_induction {P : Json → Prop} (scalar : ∀ node : Json, node.isContainer = false → P node)
    (array : ∀ items, (∀ item ∈ items, P item) → P (.array items))
    (object : ∀ fields, (∀ field ∈ fields, P field.2) → P (.object fields)) (node : Json) : P node := by
  apply @Json.rec P (fun items => ∀ item ∈ items, P item) (fun fields => ∀ field ∈ fields, P field.2)
    (fun field => P field.2)
  case array => exact array
  case object => exact object
  case nil => exact fun _ h => nomatch h
  case cons => exact fun _ _ hitem hrest => List.forall_mem_cons.mpr ⟨hitem, hrest⟩
  case nil => exact fun _ h => nomatch h
  case cons => exact fun _ _ hfield hrest => List.forall_mem_cons.mpr ⟨hfield, hrest⟩
  case mk => exact fun _ _ h => h
  all_goals intros; exact scalar _ rfl

mutual
/-- Are the numbers numbers, and the fields of all objects in order? -/
def isDocument : Json → Bool
  | .float x => !x.isNaN
  | .array items => areDocuments items
  | .object fields =>
    decide ((fields.map fun field => field.1).Pairwise (· < ·)) && holdDocuments fields
  | _ => true

/-- Are all elements documents? -/
def areDocuments : List Json → Bool
  | [] => true
  | item :: rest => isDocument item && areDocuments rest

/-- Are the values of all fields documents? -/
def holdDocuments : List (String × Json) → Bool
  | [] => true
  | (_, value) :: rest => isDocument value && holdDocuments rest
end

theorem areDocuments_iff {items : List Json} :
    areDocuments items = true ↔ ∀ item ∈ items, item.isDocument = true := by
  induction items with
  | nil => simp [areDocuments]
  | cons item rest ih => rw [areDocuments, Bool.and_eq_true, ih, List.forall_mem_cons]

theorem holdDocuments_iff {fields : List (String × Json)} :
    holdDocuments fields = true ↔ ∀ field ∈ fields, field.2.isDocument = true := by
  induction fields with
  | nil => simp [holdDocuments]
  | cons field rest ih => rw [holdDocuments, Bool.and_eq_true, ih, List.forall_mem_cons]

theorem isDocument_array {items : List Json} :
    isDocument (.array items) = true ↔ ∀ item ∈ items, item.isDocument = true := areDocuments_iff

theorem isDocument_object {fields : List (String × Json)} :
    isDocument (.object fields) = true ↔
      (fields.map fun field => field.1).Pairwise (· < ·) ∧
        ∀ field ∈ fields, field.2.isDocument = true := by
  rw [isDocument, Bool.and_eq_true, decide_eq_true_iff, holdDocuments_iff]

/-- If no two fields have one name, every field is found under its name. -/
theorem lookup_of_distinct {α : Type} {fields : List (String × α)}
    (h : (fields.map fun field => field.1).Nodup) {field : String × α} (hfield : field ∈ fields) :
    lookup? field.1 fields = some field.2 := by
  induction fields with
  | nil => cases hfield
  | cons first rest ih =>
    rw [List.map_cons, List.nodup_cons] at h
    rcases List.mem_cons.mp hfield with rfl | hfield
    · simp [lookup?]
    · have hother : first.1 ≠ field.1 := fun heq => h.1 (heq ▸ List.mem_map_of_mem hfield)
      rw [lookup?, if_neg (by simpa using hother)]
      exact ih h.2 hfield

/-- In an ascending list no two fields have one name. -/
theorem distinct_of_ascending {α : Type} {fields : List (String × α)}
    (h : (fields.map fun field => field.1).Pairwise (· < ·)) :
    (fields.map fun field => field.1).Nodup := h.imp fun hlt => ne_of_lt hlt

end LiveTemplate.Json
