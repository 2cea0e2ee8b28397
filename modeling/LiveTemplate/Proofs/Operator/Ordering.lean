import LiveTemplate.Operator.Comparison
import Mathlib
/-!
# The order of numbers

Two doubles that are numbers are less, equal or greater, one of the three, and the other way around the
other way round.  A double that is not a number is none of the three beside any other.

The comparisons of numbers and dimensions inherit the first.  The second they have only for numbers: a
dimension that holds not-a-number is not asked for it, and being neither equal nor less it comes out as
greater, on whichever side it stands.
-/

set_option autoImplicit false

namespace LiveTemplate

open Float.Model (UnpackedFloat)

/-! ## Doubles -/

namespace Number

variable {u v : UnpackedFloat} {x y : Float}

/-- The outcome of a comparison of doubles, if there is one. -/
def order (x y : Float) : Option Ordering := x.toModel.unpack.compare y.toModel.unpack

theorem compare_swap_unpacked (u v : UnpackedFloat) : v.compare u = (u.compare v).map Ordering.swap := by
  cases u with
  | notANumber => cases v <;> rfl
  | infinity s => cases v with
    | infinity s' => cases s <;> cases s' <;> rfl
    | _ => cases s <;> rfl
  | zero s => cases v with
    | infinity s' => cases s' <;> rfl
    | finite s' => cases s' <;> rfl
    | _ => rfl
  | finite s m e hm => cases v with
    | infinity s' => cases s <;> cases s' <;> rfl
    | finite s' m' e' hm' =>
      have hmagnitude : (compare e' e).then (compare m' m) = ((compare e e').then (compare m m')).swap := by
        rw [Ordering.swap_then, Int.compare_swap, Nat.compare_swap]
      cases s <;> cases s'
      · exact congrArg some (congrArg Ordering.swap hmagnitude)
      · rfl
      · rfl
      · exact congrArg some hmagnitude
    | _ => cases s <;> rfl

theorem compare_none_unpacked (u v : UnpackedFloat) :
    u.compare v = none ↔ u.isNaN = true ∨ v.isNaN = true := by
  have hsome (hu : u.isNaN = false) (hv : v.isNaN = false) : (u.compare v).isSome = true := by
    cases u with
    | notANumber => cases hu
    | infinity s => cases s <;> cases v <;> first | rfl | cases hv
    | zero s => cases v with
      | notANumber => cases hv
      | zero => rfl
      | infinity s' => cases s' <;> rfl
      | finite s' => cases s' <;> rfl
    | finite s => cases v with
      | notANumber => cases hv
      | zero => cases s <;> rfl
      | infinity s' => cases s <;> cases s' <;> rfl
      | finite s' => cases s <;> cases s' <;> rfl
  constructor
  · intro hnone
    by_contra hneither
    rw [not_or, Bool.not_eq_true, Bool.not_eq_true] at hneither
    have hsome := hsome hneither.1 hneither.2
    rw [hnone] at hsome
    cases hsome
  · rintro (hu | hv)
    · cases u <;> first | rfl | cases hu
    · cases v with
      | notANumber => cases u <;> rfl
      | _ => cases hv

theorem order_swap (x y : Float) : order y x = (order x y).map Ordering.swap := compare_swap_unpacked _ _

/-- Only beside not-a-number there is no outcome. -/
theorem order_eq_none : order x y = none ↔ x.isNaN = true ∨ y.isNaN = true :=
  compare_none_unpacked _ _

/-- Two numbers have an outcome. -/
theorem exists_order (hx : x.isNaN = false) (hy : y.isNaN = false) : ∃ o, order x y = some o := by
  rw [← Option.ne_none_iff_exists', ne_eq, order_eq_none, hx, hy]
  decide

theorem beq_iff_order : (x == y) = true ↔ order x y = some .eq :=
  ⟨fun h => eq_of_beq (α := Option Ordering) h, fun h => beq_iff_eq (α := Option Ordering).mpr h⟩

theorem lt_iff_order : x < y ↔ order x y = some .lt :=
  ⟨fun h => eq_of_beq (α := Option Ordering) (of_decide_eq_true h),
    fun h => decide_eq_true (beq_iff_eq (α := Option Ordering).mpr h)⟩

end Number

open Number

namespace Value

variable {a b : Value} {x y : Float}

theorem compareNumbers_of_order {o : Ordering} (h : order x y = some o) : compareNumbers x y = o := by
  unfold compareNumbers
  cases o with
  | lt =>
    rw [if_neg (by rw [beq_iff_order, h]; decide), if_pos (lt_iff_order.mpr h)]
  | eq => exact if_pos (beq_iff_order.mpr h)
  | gt => rw [if_neg (by rw [beq_iff_order, h]; decide), if_neg (by rw [lt_iff_order, h]; decide)]

/-- What has no outcome is greater. -/
theorem compareNumbers_of_nan (h : x.isNaN = true ∨ y.isNaN = true) : compareNumbers x y = .gt := by
  have hnone := order_eq_none.mpr h
  unfold compareNumbers
  rw [if_neg (by rw [beq_iff_order, hnone]; decide), if_neg (by rw [lt_iff_order, hnone]; decide)]

theorem compareNumbers_swap {o : Ordering} (h : order x y = some o) : compareNumbers y x = o.swap := by
  refine compareNumbers_of_order ?_
  rw [order_swap, h]
  rfl

/-! ## Numbers and dimensions -/

/-- The values compare by these doubles: they are numbers or dimensions, and not one absolute and the other
relative. -/
inductive Paired : Value → Value → Float → Float → Prop
  | numbers (x y : Float) : Paired (.number x) (.number y) x y
  | numberAbsolute (x y : Float) : Paired (.number x) (.absolute y) x y
  | numberRelative (x y : Float) : Paired (.number x) (.relative y) x y
  | absoluteNumber (x y : Float) : Paired (.absolute x) (.number y) x y
  | absolutes (x y : Float) : Paired (.absolute x) (.absolute y) x y
  | relativeNumber (x y : Float) : Paired (.relative x) (.number y) x y
  | relatives (x y : Float) : Paired (.relative x) (.relative y) x y

theorem Paired.symm (h : Paired a b x y) : Paired b a y x := by
  cases h <;> constructor

theorem Paired.compare (h : Paired a b x y) : compare a b = compareNumbers x y := by
  cases h <;> rfl

/-- Only a number is asked whether it is one. -/
theorem Paired.isNaN_left (h : Paired a b x y) (hx : x.isNaN = false) : a.isNaN = false := by
  cases h <;> first | exact hx | rfl

theorem Paired.isNaN_right (h : Paired a b x y) (hy : y.isNaN = false) : b.isNaN = false :=
  h.symm.isNaN_left hy

theorem Paired.holds (h : Paired a b x y) (ha : a.isNaN = false) (hb : b.isNaN = false)
    (accepted : Ordering → Bool) : holds accepted a b = accepted (compareNumbers x y) := by
  unfold Value.holds
  rw [ha, hb, h.compare]
  rfl

/-- The six comparisons of two values belong to one outcome, and the other way around to the opposite one. -/
structure Coherent (a b : Value) (o : Ordering) : Prop where
  less : a.less b = (o == .lt)
  equal : a.equal b = (o == .eq)
  greater : a.greater b = (o == .gt)
  lessEqual : a.lessEqual b = (a.less b || a.equal b)
  greaterEqual : a.greaterEqual b = (a.greater b || a.equal b)
  notEqual : a.notEqual b = !a.equal b
  less_swap : b.less a = a.greater b
  greater_swap : b.greater a = a.less b
  lessEqual_swap : b.lessEqual a = a.greaterEqual b
  greaterEqual_swap : b.greaterEqual a = a.lessEqual b

theorem Paired.coherent (h : Paired a b x y) (hx : x.isNaN = false) (hy : y.isNaN = false) {o : Ordering}
    (horder : order x y = some o) : Coherent a b o := by
  have hforth := h.holds (h.isNaN_left hx) (h.isNaN_right hy)
  have hback := h.symm.holds (h.isNaN_right hy) (h.isNaN_left hx)
  rw [compareNumbers_of_order horder] at hforth
  rw [compareNumbers_swap horder] at hback
  constructor
  case less | equal | greater => exact hforth _
  case notEqual => rfl
  all_goals
    simp only [Value.less, Value.lessEqual, Value.greater, Value.greaterEqual, Value.equal, hforth, hback]
    cases o <;> rfl

/-- Comparisons with a number that is none hold only for inequality. -/
structure Unordered (a b : Value) : Prop where
  less : a.less b = false
  lessEqual : a.lessEqual b = false
  greater : a.greater b = false
  greaterEqual : a.greaterEqual b = false
  equal : a.equal b = false
  notEqual : a.notEqual b = true

theorem unordered_of_isNaN (h : a.isNaN = true ∨ b.isNaN = true) : Unordered a b := by
  have hholds (accepted : Ordering → Bool) : holds accepted a b = false := by
    unfold Value.holds
    rcases h with ha | hb
    · rw [ha]
      rfl
    · rw [hb, Bool.not_true, Bool.and_false]
      rfl
  exact ⟨hholds _, hholds _, hholds _, hholds _, hholds _, congrArg not (hholds _)⟩

/-- The first value is greater, and everything that follows from it holds, but nothing else. -/
structure Above (a b : Value) : Prop where
  less : a.less b = false
  lessEqual : a.lessEqual b = false
  greater : a.greater b = true
  greaterEqual : a.greaterEqual b = true
  equal : a.equal b = false
  notEqual : a.notEqual b = true

theorem Paired.above_of_nan (h : Paired a b x y) (ha : a.isNaN = false) (hb : b.isNaN = false)
    (hnan : x.isNaN = true ∨ y.isNaN = true) : Above a b := by
  have hholds (accepted : Ordering → Bool) : Value.holds accepted a b = accepted .gt := by
    rw [h.holds ha hb, compareNumbers_of_nan hnan]
  exact ⟨hholds _, hholds _, hholds _, hholds _, hholds _, congrArg not (hholds _)⟩

/-- **The comparisons of numbers and dimensions are those of the order of doubles**, if both hold numbers.
Beside a number that is none only inequality holds.  A dimension that holds not-a-number is above every
dimension and every number that is one, and below it at once: on either side the comparison says greater. -/
theorem comparisons_of_numbers (h : Paired a b x y) :
    (a.isNaN = true ∨ b.isNaN = true → Unordered a b ∧ Unordered b a) ∧
    (x.isNaN = false → y.isNaN = false → ∃ o, order x y = some o ∧ Coherent a b o) ∧
    (a.isNaN = false → b.isNaN = false → x.isNaN = true ∨ y.isNaN = true → Above a b ∧ Above b a) :=
  ⟨fun hnan => ⟨unordered_of_isNaN hnan, unordered_of_isNaN hnan.symm⟩,
    fun hx hy => (exists_order hx hy).imp fun _ horder => ⟨horder, h.coherent hx hy horder⟩,
    fun ha hb hnan => ⟨h.above_of_nan ha hb hnan, h.symm.above_of_nan hb ha hnan.symm⟩⟩

/-- Numbers, a number that is none, and a dimension that holds none. -/
theorem comparisons_of_numbers_of_each : Coherent (number 1.0) (absolute 2.0) .lt ∧
    Unordered (number Number.nan) (absolute 2.0) ∧ Above (absolute Number.nan) (absolute 0.0) ∧
      Above (absolute 0.0) (absolute Number.nan) := by
  obtain ⟨-, hcoherent, -⟩ := comparisons_of_numbers (.numberAbsolute 1.0 2.0)
  obtain ⟨hunordered, -, -⟩ := comparisons_of_numbers (.numberAbsolute Number.nan 2.0)
  obtain ⟨-, -, habove⟩ := comparisons_of_numbers (.absolutes Number.nan 0.0)
  obtain ⟨o, horder, hcoherent⟩ := hcoherent rfl rfl
  have hless : order 1.0 2.0 = some .lt := by decide +kernel
  obtain rfl : o = .lt := Option.some.inj (horder.symm.trans hless)
  exact ⟨hcoherent, (hunordered (.inl rfl)).1, habove rfl rfl (.inl rfl)⟩

end Value

end LiveTemplate
