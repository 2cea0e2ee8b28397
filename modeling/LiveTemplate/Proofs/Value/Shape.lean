import LiveTemplate.Proofs.Value.Nested
import Mathlib.Data.List.Forall2
/-!
# Values up to references

A computation hands out references as it goes, and one that computes in another order hands out
others.  Two values are *alike* if they differ in nothing but the references of their arrays,
maps, nodes and symbols, which are the values that a template makes.  Whatever else has an
identity was there before and keeps it.  Numbers are compared as they are, so that not-a-number is
alike to itself.

Alike is equality of *shapes*, where the shape of a value has all those references erased.  So
every law here is about one value: what an operation gives for the shape is, up to shape, what it
gives for the value.

Nothing that a template can do tells alike values apart.  Equality is the only operation that looks
at references at all, and it does so only for values of other kinds, and for nodes and symbols;
this is why its law needs a value without these on one side.
-/

set_option autoImplicit false

namespace LiveTemplate

namespace Value

open Json (onEntry)

mutual
/-- The value without the references that a template hands out. -/
def shape : Value → Value
  | .array _ items => .array 0 (shapeItems items)
  | .map _ entries => .map 0 (shapeEntries entries)
  | .node _ op operands => .node 0 op (shapeItems operands)
  | .symbol _ scope name => .symbol 0 scope name
  | v => v

/-- The shapes of elements. -/
def shapeItems : List Value → List Value
  | [] => []
  | v :: rest => shape v :: shapeItems rest

/-- The entries with the shapes of their values. -/
def shapeEntries : List (String × Value) → List (String × Value)
  | [] => []
  | (key, v) :: rest => (key, shape v) :: shapeEntries rest
end

/-- The values differ in the references of arrays, maps, nodes and symbols only. -/
def Alike (a b : Value) : Prop := a.shape = b.shape

/-- Alike values at the same places. -/
def AlikeAll (xs ys : List Value) : Prop := xs.map shape = ys.map shape

/-- Alike values under the same keys. -/
def AlikeEntries (xs ys : List (String × Value)) : Prop :=
  xs.map (onEntry shape) = ys.map (onEntry shape)

theorem shapeItems_eq_map (items : List Value) : shapeItems items = items.map shape := by
  induction items with
  | nil => rfl
  | cons v rest ih => rw [shapeItems, ih, List.map_cons]

theorem shapeEntries_eq_map (entries : List (String × Value)) :
    shapeEntries entries = entries.map (onEntry shape) := by
  induction entries with
  | nil => rfl
  | cons entry rest ih =>
    obtain ⟨key, v⟩ := entry
    rw [shapeEntries, ih, List.map_cons]
    rfl

theorem Alike.refl (v : Value) : Alike v v := rfl

theorem Alike.symm {a b : Value} (h : Alike a b) : Alike b a := Eq.symm h

theorem Alike.trans {a b c : Value} (h : Alike a b) (k : Alike b c) : Alike a c := Eq.trans h k

theorem alikeAll_iff {xs ys : List Value} : AlikeAll xs ys ↔ List.Forall₂ Alike xs ys := by
  rw [AlikeAll, ← List.forall₂_eq_eq_eq, List.forall₂_map_left_iff, List.forall₂_map_right_iff]
  rfl

/-- What looks at the shapes only gives the same for alike values. -/
theorem Alike.congr {β : Type} {f : Value → β} {a b : Value} (hf : ∀ v, f (shape v) = f v)
    (h : Alike a b) : f a = f b := by
  rw [← hf a, ← hf b, show a.shape = b.shape from h]

@[simp]
theorem shape_shape (v : Value) : v.shape.shape = v.shape := by
  induction v using nested_induction with
  | atom v h => cases v <;> first | rfl | exact h.elim
  | array ref items ih =>
    simp only [shape, shapeItems_eq_map, List.map_map]
    exact congrArg _ (List.map_congr_left ih)
  | map ref entries ih =>
    simp only [shape, shapeEntries_eq_map, List.map_map]
    exact congrArg _ (List.map_congr_left fun entry he => Prod.ext rfl (ih entry he))
  | node ref op operands ih =>
    simp only [shape, shapeItems_eq_map, List.map_map]
    exact congrArg _ (List.map_congr_left ih)
  | filter ref name properties _ => rfl

/-! ## Making alike values -/

theorem alike_array {m n : Ref} {xs ys : List Value} (h : AlikeAll xs ys) :
    Alike (.array m xs) (.array n ys) := by
  simpa only [Alike, shape, shapeItems_eq_map] using congrArg _ h

theorem alike_map {m n : Ref} {xs ys : List (String × Value)} (h : AlikeEntries xs ys) :
    Alike (.map m xs) (.map n ys) := by
  simpa only [Alike, shape, shapeEntries_eq_map] using congrArg _ h

theorem alike_node {m n : Ref} (op : Operator) {xs ys : List Value} (h : AlikeAll xs ys) :
    Alike (.node m op xs) (.node n op ys) := by
  simpa only [Alike, shape, shapeItems_eq_map] using congrArg _ h

/-! ## What the shape decides -/

theorem kind_shape (v : Value) : v.shape.kind = v.kind := by cases v <;> rfl

theorem isEvaluable_shape (v : Value) : v.shape.isEvaluable = v.isEvaluable := by
  unfold isEvaluable
  rw [kind_shape]

/-! ## Containers -/

variable (store : Store)

theorem items_shape (v : Value) :
    (v.shape.items store).map shape = (v.items store).map shape := by
  cases v with
  | array ref parts => simp [shape, items, shapeItems_eq_map, Function.comp_def]
  | _ => rfl

theorem entries_shape (v : Value) :
    (v.shape.entries store).map (onEntry shape) = (v.entries store).map (onEntry shape) := by
  cases v with
  | map ref fields => simp [shape, entries, shapeEntries_eq_map, onEntry, Function.comp_def]
  | _ => rfl

end Value

end LiveTemplate
