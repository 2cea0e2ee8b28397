import LiveTemplate.Expression.Evaluation
import LiveTemplate.Proofs.Json.Fields
/-!
# Induction on values

Values nest: arrays, maps, nodes and filters have values inside.  What is proved of all values is
proved by induction on this nesting, and the functions that recurse along it come with helpers for
lists.  This file has the principle, with one case for everything that has no parts, and says of
each helper that it maps its function over the list, so that the proofs can speak of members.
-/

set_option autoImplicit false

namespace LiveTemplate

namespace Value

open Json (onEntry)

/-- The value has no values inside. -/
def IsAtom : Value → Prop
  | .array .. | .map .. | .node .. | .filter .. => False
  | _ => True

/-- Induction along the nesting of values. -/
@[elab_as_elim]
theorem nested_induction {P : Value → Prop} (atom : ∀ v, IsAtom v → P v)
    (array : ∀ ref items, (∀ v ∈ items, P v) → P (.array ref items))
    (map : ∀ ref entries, (∀ entry ∈ entries, P entry.2) → P (.map ref entries))
    (node : ∀ ref op operands, (∀ v ∈ operands, P v) → P (.node ref op operands))
    (filter : ∀ ref name properties, (∀ entry ∈ properties, P entry.2) →
      P (.filter ref name properties)) (v : Value) : P v := by
  apply @Value.rec P (fun items => ∀ v ∈ items, P v) (fun entries => ∀ entry ∈ entries, P entry.2)
    (fun entry => P entry.2)
  case array => exact array
  case map => exact map
  case node => exact node
  case filter => exact filter
  case nil => exact fun _ h => nomatch h
  case cons =>
    intro v rest hv hrest w hw
    rcases List.mem_cons.mp hw with rfl | h
    · exact hv
    · exact hrest w h
  case nil => exact fun _ h => nomatch h
  case cons =>
    intro entry rest he hrest other ho
    rcases List.mem_cons.mp ho with rfl | h
    · exact he
    · exact hrest other h
  case mk => exact fun _ _ h => h
  all_goals intros; exact atom _ trivial

/-! ## Helpers for lists -/

section Helpers

variable (store : Store) (inside : Value → Value)

theorem freezeItems_eq_map (items : List Value) :
    freezeItems store inside items = items.map (freezeWith store inside) := by
  induction items with
  | nil => rfl
  | cons v rest ih => rw [freezeItems, ih, List.map_cons]

theorem freezeEntries_eq_map (entries : List (String × Value)) :
    freezeEntries store inside entries = entries.map (onEntry (freezeWith store inside)) := by
  induction entries with
  | nil => rfl
  | cons entry rest ih =>
    obtain ⟨key, v⟩ := entry
    rw [freezeEntries, ih, List.map_cons]
    rfl

theorem copyViewsItems_eq_map (items : List Value) :
    copyViewsItems items = items.map copyViews := by
  induction items with
  | nil => rfl
  | cons v rest ih => rw [copyViewsItems, ih, List.map_cons]

theorem copyViewsEntries_eq_map (entries : List (String × Value)) :
    copyViewsEntries entries = entries.map (onEntry copyViews) := by
  induction entries with
  | nil => rfl
  | cons entry rest ih =>
    obtain ⟨key, v⟩ := entry
    rw [copyViewsEntries, ih, List.map_cons]
    rfl

theorem allPure_eq_all (items : List Value) :
    allPure items = (items.map isPureExpanded).all id := by
  induction items with
  | nil => rfl
  | cons v rest ih => rw [allPure, ih, List.map_cons, List.all_cons, id]

theorem allPureEntries_eq_all (entries : List (String × Value)) :
    allPureEntries entries = (entries.map fun entry => isPureExpanded entry.2).all id := by
  induction entries with
  | nil => rfl
  | cons entry rest ih =>
    obtain ⟨key, v⟩ := entry
    rw [allPureEntries, ih, List.map_cons, List.all_cons, id]

theorem evaluations_eq_map (operands : List Value) :
    evaluations store operands = operands.map (eval store) := by
  induction operands with
  | nil => rfl
  | cons v rest ih => rw [evaluations, ih, List.map_cons]

/-! ## Freezing to a depth -/

variable (depth : Nat) (ref : Ref)

theorem freezeTo_array (items : List Value) :
    freezeTo store depth (.array ref items) = .array ref (items.map (freezeTo store depth)) := by
  cases depth with
  | zero => simp [freezeTo]
  | succ depth => rw [freezeTo, freezeWith, freezeItems_eq_map]

theorem freezeTo_map (entries : List (String × Value)) :
    freezeTo store depth (.map ref entries) = .map ref (entries.map (onEntry (freezeTo store depth))) := by
  cases depth with
  | zero => exact congrArg (Value.map ref) (List.map_id entries).symm
  | succ depth => rw [freezeTo, freezeWith, freezeEntries_eq_map]

theorem freezeTo_node (op : Operator) (operands : List Value) :
    freezeTo store depth (.node ref op operands) = .node ref op (operands.map (freezeTo store depth)) := by
  cases depth with
  | zero => simp [freezeTo]
  | succ depth => rw [freezeTo, freezeWith, freezeItems_eq_map]

theorem freezeTo_filter (name : String) (properties : List (String × Value)) :
    freezeTo store depth (.filter ref name properties)
      = .filter ref name (properties.map (onEntry (freezeTo store depth))) := by
  cases depth with
  | zero => exact congrArg (Value.filter ref name) (List.map_id properties).symm
  | succ depth => rw [freezeTo, freezeWith, freezeEntries_eq_map]

end Helpers

end Value

end LiveTemplate
