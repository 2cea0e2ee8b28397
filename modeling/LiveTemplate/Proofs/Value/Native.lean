import LiveTemplate.Proofs.Library.Catalog
import LiveTemplate.Proofs.Value.Equivalence
/-!
# Native values

A value is native if it is put together from scalars and functions in fixed arrays and maps.  These are
the values that templates make by themselves: a root scope starts with native values, and no operator
leads out of them.  Nothing else is reached in them, neither an expression nor a scope, and no view of a
document either.

Equality of native values is equality to the reader: equal ones show the same text.  The two zeros do,
although they are not one number.  A place in a document would not, since a view of a scalar is compared
like the scalar and shows no text.
-/

set_option autoImplicit false

namespace LiveTemplate.Value

/-- The value is put together from scalars and functions. -/
inductive Native : Value → Prop
  | inline {v : Value} : v.kind.isInline = true → Native v
  | function (ref : Ref) (builtin : Builtin) : Native (.function ref builtin)
  | array {ref : Ref} {items : List Value} : (∀ v ∈ items, Native v) → Native (.array ref items)
  | map {ref : Ref} {entries : List (String × Value)} :
      (∀ entry ∈ entries, Native entry.2) → Native (.map ref entries)

variable {store : Store} {a b v : Value}

/-- **No operator leads out of the native values.** -/
theorem closed_native (store : Store) : Closed store Native where
  scalar _ hv := .inline hv
  items v h w hw := by
    cases h with
    | inline hv =>
      rw [(parts_inline store hv).1] at hw
      cases hw
    | array hitems => exact hitems w hw
    | function | map => cases hw
  entries v h entry he := by
    cases h with
    | inline hv =>
      rw [(parts_inline store hv).2] at he
      cases he
    | map hentries => exact hentries entry he
    | function | array => cases he
  array _ _ h := .array h
  map _ _ h := .map h

theorem Native.plain (h : Native v) (store : Store) : Plain store v := by
  induction h with
  | inline hv => exact plain_inline hv
  | function ref builtin => exact Library.plain_function ref builtin
  | array _ ih => exact (closed_plain store).array _ _ ih
  | map _ ih => exact (closed_plain store).map _ _ ih

/-! ## What equal values show -/

theorem display_of_beq {x y : Float} (h : (x == y) = true) : Number.display x = Number.display y := by
  rw [Float.beq_iff_ne_nan_and_eq] at h
  obtain ⟨-, -, rfl | ⟨rfl, rfl⟩ | ⟨rfl, rfl⟩⟩ := h
  · rfl
  · decide +kernel
  · decide +kernel

/-- What is compared by identity shows no text. -/
theorem toText_of_identity (h : v.kind.comparesByIdentity = true) : v.toText = "" := by
  cases v with
  | styling ref value => cases value <;> cases h
  | _ => first | rfl | cases h

/-- Expanded values that are equal show the same text. -/
theorem toText_of_agree (h : Agree a b) (hstyling : ∀ ref value, a ≠ .styling ref value) :
    a.toText = b.toText := by
  cases h with
  | number h => exact display_of_beq h
  | absolute h | relative h => exact congrArg (· ++ _) (display_of_beq h)
  | styling => exact absurd rfl (hstyling _ _)
  | items ha hb =>
    rcases fixedItems_cases ha with ⟨_, rfl⟩ | ⟨_, _, rfl, -⟩ <;>
      rcases fixedItems_cases hb with ⟨_, rfl⟩ | ⟨_, _, rfl, -⟩ <;> rfl
  | entries ha hb =>
    rcases fixedEntries_cases ha with ⟨_, rfl⟩ | ⟨_, _, rfl, -⟩ <;>
      rcases fixedEntries_cases hb with ⟨_, rfl⟩ | ⟨_, _, rfl, -⟩ <;> rfl
  | identity hkind hcompares => rw [toText_of_identity hcompares, toText_of_identity (hkind ▸ hcompares)]
  | _ => rfl

/-- Expansion leaves the text of a native value. -/
theorem Native.expanded (h : Native v) (store : Store) : (v.expanded store).toText = v.toText ∧
    ∀ ref value, v.expanded store ≠ .styling ref value := by
  cases h with
  | inline hv =>
    cases v with
    | styling ref value => cases value <;> cases hv
    | view ref document path =>
      rcases kind_view ref document path with hkind | hkind <;> rw [hkind] at hv <;> cases hv
    | _ => exact ⟨rfl, fun _ _ h => by cases h⟩
  | function ref builtin => exact ⟨rfl, fun _ _ h => by cases h⟩
  | array => exact ⟨rfl, fun _ _ h => by cases h⟩
  | map => exact ⟨rfl, fun _ _ h => by cases h⟩

/-- **Equal native values show the same text.** -/
theorem Native.toText_of_same (ha : Native a) (hb : Native b) (h : a.same store b = true) :
    a.toText = b.toText := by
  obtain ⟨htext, hstyling⟩ := ha.expanded store
  rw [← htext, ← (hb.expanded store).1]
  exact toText_of_agree (agree_of_same h) hstyling

end LiveTemplate.Value
