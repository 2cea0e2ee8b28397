import LiveTemplate.Proofs.Value.Nested
import Mathlib.Data.List.Forall2
/-!
# What operators do not look at

Most operators work on scalars, and of any other value they see no more than its kind: the
*outline*.  The others move the parts of containers about.  So a detail of values may be forgotten
without any operator noticing, if forgetting it keeps outlines and goes along with taking containers
apart and putting them together.  A function that forgets such a detail is a `Blur`.  Two values are
*like* each other if they are the same when blurred.

Equality is the one operation that looks deeper, and a blur has to say for itself for which values
it makes no difference there.
-/

set_option autoImplicit false

namespace LiveTemplate

open Json (onEntry)

namespace Value

/-- Has the value parts, or does it wait for evaluation? -/
def isComposite : Value → Bool
  | .array .. | .map .. | .mutableArray _ | .mutableMap _ | .view .. | .node .. | .symbol .. => true
  | _ => false

/-- What an operator on scalars sees of a value. -/
def outline (v : Value) : Value := if v.isComposite then .handle 0 v.kind "" else v

/-! ## What the outline decides -/

theorem kind_outline (v : Value) : v.outline.kind = v.kind := by cases v <;> rfl

theorem toText_outline (v : Value) : v.outline.toText = v.toText := by cases v <;> rfl

theorem toNumber_outline (v : Value) : v.outline.toNumber = v.toNumber := by cases v <;> rfl

theorem toInt32_outline (v : Value) : v.outline.toInt32 = v.toInt32 := by cases v <;> rfl

theorem truthy_outline (v : Value) : v.outline.truthy = v.truthy := by cases v <;> rfl

theorem isEmptyText_outline (v : Value) : v.outline.isEmptyText = v.isEmptyText := by
  cases v <;> rfl

theorem isNaN_outline (v : Value) : v.outline.isNaN = v.isNaN := by cases v <;> rfl

theorem int_outline (base : Int) (v : Value) :
    Library.int base v.outline = Library.int base v := by cases v <;> rfl

theorem plus_outline (v : Value) : v.outline.plus = v.plus := by cases v <;> rfl

theorem negate_outline (v : Value) : v.outline.negate = v.negate := by cases v <;> rfl

theorem multiply_outline (a b : Value) : a.outline.multiply b.outline = a.multiply b := by
  cases a <;> first | rfl | (cases b <;> rfl)

theorem divideBy_outline (op : Float → Float → Float) (a b : Value) :
    a.outline.divideBy op b.outline = a.divideBy op b := by
  cases a <;> first | rfl | (cases b <;> rfl)

theorem combine_outline (op : Float → Float → Float) (a b : Value) :
    combine? op a.outline b.outline = combine? op a b := by
  cases a <;> first | rfl | (cases b <;> rfl)

theorem append_outline (a b : Value) : append a.outline b.outline = append a b := by
  unfold append
  rw [toText_outline, toText_outline]

theorem add_outline (a b : Value) : a.outline.add b.outline = a.add b := by
  unfold add
  rw [combine_outline, append_outline]

theorem subtract_outline (a b : Value) : a.outline.subtract b.outline = a.subtract b := by
  unfold subtract
  rw [combine_outline]

theorem compare_outline (a b : Value) : compare a.outline b.outline = compare a b := by
  cases a <;> first | rfl | (cases b <;> rfl)

theorem holds_outline (accepted : Ordering → Bool) (a b : Value) :
    holds accepted a.outline b.outline = holds accepted a b := by
  unfold holds
  rw [isNaN_outline, isNaN_outline, compare_outline]

theorem less_outline (a b : Value) : a.outline.less b.outline = a.less b := holds_outline _ a b

theorem greater_outline (a b : Value) : a.outline.greater b.outline = a.greater b :=
  holds_outline _ a b

theorem lessEqual_outline (a b : Value) : a.outline.lessEqual b.outline = a.lessEqual b :=
  holds_outline _ a b

theorem greaterEqual_outline (a b : Value) : a.outline.greaterEqual b.outline = a.greaterEqual b :=
  holds_outline _ a b

theorem equal_outline (a b : Value) : a.outline.equal b.outline = a.equal b := holds_outline _ a b

theorem notEqual_outline (a b : Value) : a.outline.notEqual b.outline = a.notEqual b := by
  unfold notEqual
  rw [equal_outline]

/-- Functions and curves are scalars in this respect. -/
theorem call_outline (store : Store) (callee : Value) (args : List Value) :
    callee.outline.call store args = callee.call store args := by cases callee <;> rfl

theorem outline_eq_self {v : Value} (h : v.isComposite = false) : v.outline = v := by
  simp [outline, h]

/-- A scalar is the only value with its outline. -/
theorem eq_of_outline {a b : Value} (h : a.outline = b.outline) (hb : b.isComposite = false)
    (hkind : ∀ ref kind label, b ≠ .handle ref kind label) : a = b := by
  rw [outline_eq_self hb] at h
  by_cases ha : a.isComposite = true
  · rw [outline, if_pos ha] at h
    exact absurd h.symm (hkind _ _ _)
  · rwa [outline_eq_self (Bool.not_eq_true _ ▸ ha)] at h

end Value

open Value

/-- A function that forgets something of values that no operator looks at. -/
structure Blur (store : Store) where
  blur : Value → Value
  outline : ∀ v, (blur v).outline = v.outline
  items : ∀ v, ((blur v).items store).map blur = (v.items store).map blur
  entries : ∀ v, ((blur v).entries store).map (onEntry blur) = (v.entries store).map (onEntry blur)
  array : ∀ {m n : Ref} {xs ys : List Value}, xs.map blur = ys.map blur →
    blur (.array m xs) = blur (.array n ys)
  map : ∀ {m n : Ref} {xs ys : List (String × Value)},
    xs.map (onEntry blur) = ys.map (onEntry blur) → blur (.map m xs) = blur (.map n ys)
  /-- The values that may stand on the right of an equality. -/
  Comparable : Value → Prop
  comparable_items : ∀ {v w : Value}, Comparable v → w ∈ v.items store → Comparable w
  same : ∀ {a a' b b' : Value}, blur a = blur a' → blur b = blur b' → Comparable b →
    a.same store b = a'.same store b'

namespace Blur

variable {store : Store} (B : Blur store)

/-- The values are the same when blurred. -/
def Like (a b : Value) : Prop := B.blur a = B.blur b

/-- Like values at the same places. -/
def LikeAll (xs ys : List Value) : Prop := xs.map B.blur = ys.map B.blur

/-- Like values under the same keys. -/
def LikeEntries (xs ys : List (String × Value)) : Prop :=
  xs.map (onEntry B.blur) = ys.map (onEntry B.blur)

variable {B}

theorem likeAll_iff {xs ys : List Value} : B.LikeAll xs ys ↔ List.Forall₂ B.Like xs ys := by
  rw [LikeAll, ← List.forall₂_eq_eq_eq, List.forall₂_map_left_iff, List.forall₂_map_right_iff]
  rfl

variable {a b : Value}

theorem Like.refl (v : Value) : B.Like v v := rfl

theorem Like.symm (h : B.Like a b) : B.Like b a := Eq.symm h

theorem Like.outline (h : B.Like a b) : a.outline = b.outline := by
  rw [← B.outline a, ← B.outline b, show B.blur a = B.blur b from h]

/-- What looks at the outline only gives the same for like values. -/
theorem Like.congr {β : Type} {f : Value → β} (hf : ∀ v, f v.outline = f v) (h : B.Like a b) :
    f a = f b := by
  rw [← hf a, ← hf b, h.outline]

theorem Like.kind (h : B.Like a b) : a.kind = b.kind := h.congr kind_outline

theorem LikeAll.outline {xs ys : List Value} (h : B.LikeAll xs ys) :
    xs.map Value.outline = ys.map Value.outline := by
  rw [← List.forall₂_eq_eq_eq, List.forall₂_map_left_iff, List.forall₂_map_right_iff]
  exact (likeAll_iff.mp h).imp fun _ _ hab => hab.outline

/-- What looks at the outlines only gives the same for like values. -/
theorem LikeAll.congr {β : Type} {f : List Value → β}
    (hf : ∀ xs : List Value, f (xs.map Value.outline) = f xs) {xs ys : List Value}
    (h : B.LikeAll xs ys) : f xs = f ys := by
  rw [← hf xs, ← hf ys, h.outline]

/-- Scalars are like themselves only. -/
theorem Like.eq_of_scalar (h : B.Like a b) (hb : b.isComposite = false)
    (hkind : ∀ ref kind label, b ≠ .handle ref kind label) : a = b :=
  eq_of_outline (h.outline) hb hkind

/-! ## Containers -/

theorem Like.items (h : B.Like a b) : B.LikeAll (a.items store) (b.items store) := by
  show List.map _ _ = List.map _ _
  rw [← B.items a, ← B.items b, show B.blur a = B.blur b from h]

theorem Like.entries (h : B.Like a b) : B.LikeEntries (a.entries store) (b.entries store) := by
  show List.map _ _ = List.map _ _
  rw [← B.entries a, ← B.entries b, show B.blur a = B.blur b from h]

theorem Like.keys (h : B.Like a b) : a.keys store = b.keys store := by
  simpa [Value.keys, onEntry, Function.comp_def] using
    congrArg (List.map fun entry => entry.1) (h.entries)

theorem Like.size (h : B.Like a b) : a.size store = b.size store := by
  have hsizes : (a.items store).length + (a.entries store).length
      = (b.items store).length + (b.entries store).length := by
    have hitems := congrArg List.length (h.items)
    have hentries := congrArg List.length (h.entries)
    rw [List.length_map, List.length_map] at hitems hentries
    rw [hitems, hentries]
  by_cases ha : ∃ s, a = .text s
  · obtain ⟨s, rfl⟩ := ha
    rw [h.symm.eq_of_scalar rfl (by simp)]
  · have hother : ∀ v : Value, (∀ s, v ≠ .text s) →
        v.size store = (v.items store).length + (v.entries store).length := by
      intro v hv
      cases v <;> first | rfl | exact absurd rfl (hv _)
    rw [hother a fun s hs => ha ⟨s, hs⟩, hother b ?_, hsizes]
    rintro s rfl
    exact ha ⟨s, h.eq_of_scalar rfl (by simp)⟩

theorem Like.item (h : B.Like a b) (i : Nat) : B.Like (a.item store i) (b.item store i) := by
  have hitems : (a.items store)[i]?.map B.blur = (b.items store)[i]?.map B.blur := by
    rw [← List.getElem?_map, ← List.getElem?_map, h.items]
  unfold Value.item
  revert hitems
  cases (a.items store)[i]? <;> cases (b.items store)[i]? <;> simp [Like]

theorem Like.lookup (h : B.Like a b) (key : String) :
    (Json.lookup? key (a.entries store)).map B.blur
      = (Json.lookup? key (b.entries store)).map B.blur := by
  rw [← Json.lookup_map, ← Json.lookup_map, h.entries]

theorem Like.has (h : B.Like a b) (key : String) : a.has store key = b.has store key := by
  simpa [Value.has] using congrArg Option.isSome (h.lookup key)

theorem Like.field (h : B.Like a b) (key : String) :
    B.Like (a.field store key) (b.field store key) := by
  have hentries := h.lookup key
  unfold Value.field
  revert hentries
  cases Json.lookup? key (a.entries store) <;> cases Json.lookup? key (b.entries store) <;>
    simp [Like]

/-- What has parts is empty if its size says so. -/
theorem isEmpty_part {v : Value}
    (h : v.isComposite = true ∨ ∃ ref kind label, v = .handle ref kind label) : v.isEmpty store = match v.kind with
      | .bool | .number | .absolute | .relative | .auto | .color => false
      | _ => v.size store == 0 := by
  cases v <;> first | rfl | simp [isComposite] at h

theorem Like.isEmpty (h : B.Like a b) : a.isEmpty store = b.isEmpty store := by
  have hcases : ∀ v : Value, (v.isComposite = true ∨ ∃ ref kind label, v = .handle ref kind label) ∨
      (v.isComposite = false ∧ ∀ ref kind label, v ≠ .handle ref kind label) := by
    intro v
    cases v <;> simp [isComposite]
  rcases hcases a with ha | ⟨ha, hakind⟩
  · rcases hcases b with hb | ⟨hb, hbkind⟩
    · rw [isEmpty_part ha, isEmpty_part hb, h.kind, h.size]
    · rw [h.eq_of_scalar hb hbkind]
  · rw [h.symm.eq_of_scalar ha hakind]

theorem Like.truthy (h : B.Like a b) : a.truthy = b.truthy := h.congr truthy_outline

/-! ## Selecting -/

theorem Like.lengthOf (h : B.Like a b) : Value.lengthOf store a = Value.lengthOf store b := by
  unfold Value.lengthOf
  rw [h.size]

theorem Like.selectItem (h : B.Like a b) (x : Float) :
    B.Like (a.selectItem store x) (b.selectItem store x) := by
  unfold Value.selectItem
  rw [h.size]
  dsimp only
  split
  · split
    · exact h.item _
    · rfl
  · split
    · exact h.item _
    · rfl

theorem selectField_outline (v key : Value) :
    v.selectField store key.outline = v.selectField store key := by cases key <;> rfl

theorem selectIndex_outline (v key : Value) :
    v.selectIndex store key.outline = v.selectIndex store key := by cases key <;> rfl

theorem Like.selectField (h : B.Like a b) {key key' : Value} (hkey : B.Like key key') :
    B.Like (a.selectField store key) (b.selectField store key') := by
  rw [hkey.congr (selectField_outline a)]
  unfold Value.selectField
  split
  · rw [h.kind, h.lengthOf]
    split
    · exact h.field _
    · rfl
  · rfl

theorem Like.selectIndex (h : B.Like a b) {key key' : Value} (hkey : B.Like key key') :
    B.Like (a.selectIndex store key) (b.selectIndex store key') := by
  rw [hkey.congr (selectIndex_outline a)]
  unfold Value.selectIndex
  split
  · rw [h.kind]
    split
    · exact h.selectItem _
    · rfl
  · exact Like.selectField h rfl

/-! ## Merging and pairing -/

theorem Like.merge {a' b' : Value} (ha : B.Like a a') (hb : B.Like b b') :
    B.Like (merge a b) (merge a' b') := by
  unfold Value.merge
  rw [ha.congr isEmptyText_outline, hb.congr isEmptyText_outline]
  split
  · exact hb
  · split
    · exact ha
    · rw [append, ha.congr toText_outline, hb.congr toText_outline]
      rfl

theorem LikeAll.mergeAll {xs ys : List Value} (h : B.LikeAll xs ys) :
    B.Like (mergeAll xs) (mergeAll ys) := by
  rcases likeAll_iff.mp h with _ | @⟨first, first', rest, rest', hfirst, hrest⟩
  · rfl
  · show B.Like (rest.foldl Value.merge first) (rest'.foldl Value.merge first')
    clear h
    induction hrest generalizing first first' with
    | nil => exact hfirst
    | cons hpart _ ih => exact ih (hfirst.merge hpart)

theorem LikeAll.pairUp {xs ys : List Value} (h : B.LikeAll xs ys) :
    B.LikeEntries (Operator.pairUp xs) (Operator.pairUp ys) := by
  induction xs using Operator.pairUp.induct generalizing ys with
  | case1 key value rest ih =>
    rcases likeAll_iff.mp h with _ | ⟨hkey, _ | ⟨hvalue, hrest⟩⟩
    show onEntry B.blur (_, _) :: List.map _ _ = onEntry B.blur (_, _) :: List.map _ _
    rw [ih (likeAll_iff.mpr hrest), onEntry, onEntry, hkey.congr toText_outline,
      show B.blur value = _ from hvalue]
  | case2 flat hflat =>
    rcases likeAll_iff.mp h with _ | ⟨hkey, _ | ⟨hvalue, hrest⟩⟩
    · rfl
    · rfl
    · exact (hflat _ _ _ rfl).elim

end Blur

end LiveTemplate
