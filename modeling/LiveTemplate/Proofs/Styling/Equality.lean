import LiveTemplate.Styling.Basic
import Mathlib
/-!
# Equality of doubles and of styling values

Equality of doubles is symmetric and transitive, and every double but not-a-number equals itself.
Styling values inherit that from the doubles that they are made of.
-/

set_option autoImplicit false

namespace LiveTemplate

/-! ## Doubles -/

theorem beq_double_symm {x y : Float} (h : (x == y) = true) : (y == x) = true := by
  rw [Float.beq_iff_ne_nan_and_eq] at h ⊢
  obtain ⟨hx, hy, hxy⟩ := h
  refine ⟨hy, hx, ?_⟩
  rcases hxy with hsame | ⟨hx, hy⟩ | ⟨hx, hy⟩
  · exact .inl hsame.symm
  · exact .inr (.inr ⟨hy, hx⟩)
  · exact .inr (.inl ⟨hy, hx⟩)

theorem beq_double_trans {x y z : Float} (h : (x == y) = true) (k : (y == z) = true) :
    (x == z) = true := by
  rw [Float.beq_iff_ne_nan_and_eq] at h k ⊢
  obtain ⟨hx, -, hxy⟩ := h
  obtain ⟨-, hz, hyz⟩ := k
  refine ⟨hx, hz, ?_⟩
  -- only the two zeros are equal and not the same
  rcases hxy with rfl | ⟨hx, hy⟩ | ⟨hx, hy⟩
  · exact hyz
  · rcases hyz with rfl | ⟨-, hz⟩ | ⟨-, hz⟩
    · exact .inr (.inl ⟨hx, hy⟩)
    · exact .inr (.inl ⟨hx, hz⟩)
    · exact .inl (hx.trans hz.symm)
  · rcases hyz with rfl | ⟨-, hz⟩ | ⟨-, hz⟩
    · exact .inr (.inr ⟨hx, hy⟩)
    · exact .inl (hx.trans hz.symm)
    · exact .inr (.inr ⟨hx, hz⟩)

theorem beq_double_self {x : Float} (h : x.isNaN = false) : (x == x) = true := by
  rw [Float.beq_self_iff]
  rintro rfl
  rw [Float.isNaN_eq_decide_eq_nan] at h
  simp at h

instance partialEquivDouble : PartialEquivBEq Float := ⟨beq_double_symm, beq_double_trans⟩

instance partialEquivList {α : Type} [BEq α] [PartialEquivBEq α] : PartialEquivBEq (List α) where
  symm {as bs} h := by
    induction as generalizing bs with
    | nil => cases bs <;> first | rfl | cases h
    | cons a as ih =>
      cases bs with
      | nil => cases h
      | cons b bs =>
        simp only [List.cons_beq_cons, Bool.and_eq_true] at h ⊢
        exact ⟨BEq.symm h.1, ih h.2⟩
  trans {as bs cs} h k := by
    induction as generalizing bs cs with
    | nil => cases bs <;> first | exact k | cases h
    | cons a as ih =>
      cases bs with
      | nil => cases h
      | cons b bs =>
        cases cs with
        | nil => cases k
        | cons c cs =>
          simp only [List.cons_beq_cons, Bool.and_eq_true] at h k ⊢
          exact ⟨BEq.trans h.1 k.1, ih h.2 k.2⟩

theorem beq_doubles_self {xs : List Float} (h : ∀ x ∈ xs, x.isNaN = false) : (xs == xs) = true := by
  induction xs with
  | nil => rfl
  | cons x rest ih =>
    rw [List.cons_beq_cons, beq_double_self (h x List.mem_cons_self),
      ih fun y hy => h y (List.mem_cons_of_mem _ hy)]
    rfl

/-! ## Styling values -/

namespace Styling

/-- The doubles that a value is made of. -/
def numbers : Styling → List Float
  | .rect r => [r.x, r.y, r.width, r.height]
  | .radii values => values
  | .transform matrix => matrix
  | .gradient g => g.angle :: g.inputs
  | .media m => [m.duration, m.offset]
  | .styledText _ => []

theorem same_symm {a b : Styling} (h : a.same b = true) : b.same a = true := by
  cases a <;> cases b <;> first
    | cases h
    | simp only [same, Bool.and_eq_true] at h ⊢
      simp only [h, BEq.symm, and_self]

theorem same_trans {a b c : Styling} (h : a.same b = true) (k : b.same c = true) :
    a.same c = true := by
  cases a <;> cases b <;> first
    | cases h
    | cases c <;> first
      | cases k
      | simp only [same, Bool.and_eq_true] at h k ⊢
        grind [BEq.trans]

theorem same_self {a : Styling} (h : ∀ x ∈ a.numbers, x.isNaN = false) : a.same a = true := by
  cases a with
  | rect r => simp_all [same, numbers, beq_double_self]
  | radii values => exact beq_doubles_self h
  | transform matrix => exact beq_doubles_self h
  | gradient g => simp_all [same, numbers, beq_double_self, beq_doubles_self]
  | media m => simp_all [same, numbers, beq_double_self]
  | styledText raw => exact beq_self_eq_true raw

end Styling

end LiveTemplate
