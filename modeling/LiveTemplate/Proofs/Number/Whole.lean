import LiveTemplate.Number.Exact
import Mathlib
/-!
# Whole numbers are numbers

A whole number as a double may be rounded, and a very large one is infinite, but it is never
not-a-number.  Neither rounding nor packing makes not-a-number of anything else, and no product does
of which one factor is finite and not zero.
-/

set_option autoImplicit false

namespace LiveTemplate.Number

open Float.Model (Format UnpackedFloat)
open Float.Model.UnpackedFloat

/-! ## Packing -/

/-- The bits of not-a-number have all ones in the exponent, and in the mantissa not only zeros.
Packing makes such bits of nothing else. -/
theorem isNaNBits_pack {spec : Format} {u : UnpackedFloat} (h : u ≠ .notANumber) :
    isNaNBits (pack spec u) = false := by
  unfold isNaNBits
  rw [decide_eq_false_iff_not]
  rintro ⟨hexponent, hmantissa⟩
  revert hexponent hmantissa
  fun_cases pack with
  | case1 => exact absurd rfl h
  | case2 s => simp [packedInfinity]
  | case3 s => simp [packedZero]
  | case4 s => simp [packedInfinity]
  | case5 s m e hm actual biased h₁ h₂ =>
    rw [unpackExponent_packComponents]
    intro hexponent
    have hall := congrArg BitVec.toNat hexponent
    rw [BitVec.toNat_ofNat, BitVec.neg_one_eq_allOnes, BitVec.toNat_allOnes,
      Nat.mod_eq_of_lt (by omega)] at hall
    omega
  | case6 s m e hm actual biased h₁ h₂ =>
    rw [unpackExponent_packComponents]
    intro hexponent
    have hall := congrArg BitVec.toNat hexponent
    rw [BitVec.toNat_ofNat, Nat.zero_mod, BitVec.neg_one_eq_allOnes, BitVec.toNat_allOnes] at hall
    have hpow := Nat.pow_le_pow_right (n := 2) (by decide) spec.he
    omega

theorem isNaN_pack {u : UnpackedFloat} (h : u ≠ .notANumber) :
    (Float.ofModel (.pack u)).isNaN = false := by
  cases hnan : (Float.ofModel (.pack u)).isNaN with
  | false => rfl
  | true =>
    have hvalid : Format.binary64.Valid (pack Format.binary64 u) := valid_pack
    have hbits := (isNaN_unpack_iff_of_valid hvalid).mp hnan
    have hpacked : isNaNBits (pack Format.binary64 u) = false := isNaNBits_pack h
    rw [hbits, isNaNBits_packedNaN] at hpacked
    cases hpacked

theorem unpack_ne {x : Float} (h : x.isNaN = false) : x.toModel.unpack ≠ .notANumber := by
  intro hnan
  have hx : x.toModel.unpack.isNaN = false := h
  rw [hnan] at hx
  cases hx

/-! ## Operations -/

theorem roundWithAccuracy_ne (spec : Format) (sign : Sign) (m : Nat) (e : Int) (accuracy : Accuracy) :
    roundWithAccuracy spec sign m e accuracy ≠ .notANumber := by
  unfold roundWithAccuracy
  dsimp only
  split <;> simp

theorem normalize_ne (spec : Format) (m : Int) (e : Int) (sign : Sign) :
    UnpackedFloat.normalize spec m e sign ≠ .notANumber := by
  unfold UnpackedFloat.normalize
  split
  · exact roundWithAccuracy_ne _ _ _ _ _
  · simp
  · exact roundWithAccuracy_ne _ _ _ _ _

theorem neg_ne {u : UnpackedFloat} (h : u ≠ .notANumber) : u.neg ≠ .notANumber := by
  cases u <;> first | exact absurd rfl h | simp [neg]

theorem mul_finite_ne (spec : Format) {u : UnpackedFloat} (h : u ≠ .notANumber) (sign : Sign) (m : Nat)
    (e : Int) (hm : 0 < m) : mul spec u (.finite sign m e hm) ≠ .notANumber := by
  cases u with
  | notANumber => exact absurd rfl h
  | infinity => simp [mul]
  | zero => simp [mul]
  | finite => exact roundWithAccuracy_ne _ _ _ _ _

theorem ofScientific_ne (spec : Format) (m e : Nat) :
    ofScientific spec m e ≠ .notANumber := by
  unfold ofScientific
  split
  · simp
  · split
    · simp
    · split
      · simp
      · rw [if_pos (Int.natCast_nonneg e)]
        exact mul_finite_ne spec (by simp) _ _ _ _

/-! ## Whole numbers -/

theorem unpack_one : (Float.ofBits 0x3FF0000000000000).toModel.unpack
    = .finite .positive (2 ^ 52) (-52) (by decide) := rfl

theorem isNaN_ofNat (n : Nat) : (Float.ofNat n).isNaN = false := by
  show (Float.ofScientific n false 0).isNaN = false
  unfold Float.ofScientific
  split
  · -- a small number is converted exactly and multiplied by one
    have hword : n.toUInt64.toFloat.isNaN = false := isNaN_pack (normalize_ne _ _ _ _)
    refine isNaN_pack (u := mul _ _ (Float.ofBits 0x3FF0000000000000).toModel.unpack) ?_
    rw [unpack_one]
    exact mul_finite_ne _ (unpack_ne hword) _ _ _ _
  · exact isNaN_pack (ofScientific_ne _ n 0)

/-- **A whole number is a number.** -/
theorem isNaN_ofInt (n : Int) : (ofInt n).isNaN = false := by
  cases n with
  | ofNat n => exact isNaN_ofNat n
  | negSucc n => exact isNaN_pack (neg_ne (unpack_ne (isNaN_ofNat (n + 1))))

end LiveTemplate.Number
