import LiveTemplate.Proofs.Number.Integral
import LiveTemplate.Proofs.Number.Nearest
/-!
# Rounded arithmetic

A finite double stands for a rational number, its value.  A quotient, a product, a difference or a sum of
doubles is the double nearest to that of the values, as long as it is far from the greatest one.

The arithmetic of the model keeps of an exact result only a significand and what the digits beyond it
amount to: nothing, less than a half, a half, or more.  That is enough to round, and to move the significand
to the right first (`Holds`).  So each operation has only to show what its exact result is, and that it did
not begin with too few digits; the rounding is the same for all (`roundWithAccuracy_rounds`).
-/

set_option autoImplicit false

namespace LiveTemplate.Number

open Float.Model (Format UnpackedFloat totalExponent)
open Float.Model.UnpackedFloat

variable {s s' : Sign} {m m' n : Nat} {e e' : Int} {q r t : ℚ} {x y : Float}

/-! ## The values of doubles -/

/-- A magnitude with a sign. -/
def signed (s : Sign) (q : ℚ) : ℚ := match s with
  | .negative => -q
  | .positive => q

theorem signed_mul (s s' : Sign) (q r : ℚ) : signed s q * signed s' r = signed (s * s') (q * r) := by
  cases s <;> cases s'
  · exact neg_mul_neg q r
  · exact neg_mul q r
  · exact mul_neg q r
  · rfl

theorem signed_div (s s' : Sign) (q r : ℚ) : signed s q / signed s' r = signed (s / s') (q / r) := by
  cases s <;> cases s'
  · exact neg_div_neg_eq q r
  · exact neg_div r q
  · exact div_neg q
  · rfl

theorem signed_neg (s : Sign) (q : ℚ) : signed (-s) q = -signed s q := by
  cases s
  · exact (neg_neg q).symm
  · rfl

theorem abs_signed (s : Sign) (q : ℚ) : |signed s q| = |q| := by
  cases s
  · exact abs_neg q
  · rfl

/-- The number that a reading of a double stands for; zero if there is none. -/
def exactValue : Exact → ℚ
  | .finite negative m e => signed (if negative then .negative else .positive) (m * 2 ^ e)
  | _ => 0

/-- The number that a double stands for; zero if there is none. -/
def value (x : Float) : ℚ := exactValue (.ofFloat x)

/-- The double is finite and stands for the number. -/
def Denotes (x : Float) (q : ℚ) : Prop := x.isFinite = true ∧ value x = q

theorem value_zero (h : x.toModel.unpack = .zero s) : value x = 0 := by
  unfold value
  rw [ofFloat_eq, h]
  show signed _ (((0 : Nat) : ℚ) * _) = 0
  rw [Nat.cast_zero, zero_mul]
  split <;> simp [signed]

theorem value_finite {hm : 0 < m} (h : x.toModel.unpack = .finite s m e hm) : value x = signed s (m * 2 ^ e) := by
  unfold value
  rw [ofFloat_eq, h]
  cases s <;> rfl

/-- A finite double is a zero or has a significand. -/
theorem finite_cases (h : x.isFinite = true) : (∃ s, x.toModel.unpack = .zero s) ∨
    ∃ (s : Sign) (m : Nat) (e : Int) (hm : 0 < m), x.toModel.unpack = .finite s m e hm := by
  change x.toModel.unpack.isFinite = true at h
  cases hx : x.toModel.unpack with
  | infinity s => rw [hx] at h; cases h
  | notANumber => rw [hx] at h; cases h
  | zero s => exact .inl ⟨s, rfl⟩
  | finite s m e hm => exact .inr ⟨s, m, e, hm, rfl⟩

/-! ## Significands and exponents of doubles -/

/-- The significand and the exponent are those of a double. -/
def IsDouble (m : Nat) (e : Int) : Prop := IsNormal m e ∨ m < 2 ^ 52 ∧ e = -1074

theorem isDouble_of_unpack {hm : 0 < m} (h : x.toModel.unpack = .finite s m e hm) : IsDouble m e :=
  isNormal_of_unpack h

theorem IsDouble.lt (h : IsDouble m e) : m < 2 ^ 53 := by
  rcases h with hnormal | ⟨hlt, -⟩
  · exact hnormal.high
  · omega

theorem unpack_pack_subnormal (hlt : m < 2 ^ 52) (hm : 0 < m) :
    (Float.Model.pack (.finite s m (-1074) hm)).unpack = .finite s m (-1074) hm := by
  have hlog : m.log2 < 52 := (Nat.log2_lt hm.ne').mpr hlt
  have hpack : pack .binary64 (.finite s m (-1074) hm) = packComponents .binary64 s 0#11 (BitVec.ofNat 52 m) := by
    rw [pack]
    exact (if_neg (by decide)).trans (if_neg (show ¬m.log2 + 1 = 53 by omega))
  show unpack _ (pack _ _) = _
  rw [hpack]
  have hmantissa : (BitVec.ofNat 52 m).toNat = m := by
    rw [BitVec.toNat_ofNat]
    omega
  have hpos : BitVec.ofNat 52 m ≠ 0#52 := by
    intro heq
    have hnone := congrArg BitVec.toNat heq
    rw [hmantissa, show (0#52).toNat = 0 from rfl] at hnone
    omega
  rw [unpack]
  simp only [unpackMantissa_packComponents, unpackExponent_packComponents, unpackSign_packComponents,
    Sign.ofBitVec_toBitVec, exponentBias_binary64, hmantissa, dif_neg hpos]
  rfl

theorem unpack_pack_double (h : IsDouble m e) (hm : 0 < m) :
    (Float.Model.pack (.finite s m e hm)).unpack = .finite s m e hm := by
  rcases h with hnormal | ⟨hlt, rfl⟩
  · exact unpack_pack_normal hnormal hm
  · exact unpack_pack_subnormal hlt hm

theorem significand_bounds (hm : 0 < m) : (2 : ℚ) ^ m.log2 ≤ m ∧ (m : ℚ) + 1 ≤ 2 ^ (m.log2 + 1) :=
  ⟨by exact_mod_cast Nat.log2_self_le hm.ne', by exact_mod_cast Nat.succ_le_of_lt (Nat.lt_log2_self (n := m))⟩

/-- The binary places of a number that begins with the digits of a significand. -/
theorem log_of_significand (hm : 0 < m) (hle : (m : ℚ) ≤ t) (hlt : t < m + 1) :
    Int.log 2 |t * 2 ^ e| = m.log2 + e := by
  have hpos : (0 : ℚ) < t := (Nat.cast_pos.mpr hm).trans_le hle
  have hmag : |t * 2 ^ e| = t * 2 ^ e := abs_of_pos (mul_pos hpos (two_zpow_pos e))
  obtain ⟨hlow, hhigh⟩ := significand_bounds hm
  have hall : (0 : ℚ) < |t * 2 ^ e| := abs_pos.mpr (mul_pos hpos (two_zpow_pos e)).ne'
  refine le_antisymm (Int.lt_add_one_iff.mp ?_) ?_
  · refine (Int.lt_zpow_iff_log_lt (by norm_num) hall).mp ?_
    push_cast
    rw [hmag, show (m.log2 : ℤ) + e + 1 = ((m.log2 + 1 : Nat) : ℤ) + e by push_cast; ring, two_zpow_add, zpow_natCast]
    exact mul_lt_mul_of_pos_right (hlt.trans_le hhigh) (two_zpow_pos e)
  · refine (Int.zpow_le_iff_le_log (by norm_num) hall).mp ?_
    push_cast
    rw [hmag, two_zpow_add, zpow_natCast]
    exact mul_le_mul_of_nonneg_right (hlow.trans hle) (two_zpow_pos e).le

theorem log_significand (hm : 0 < m) (e : Int) : Int.log 2 |(m : ℚ) * 2 ^ e| = m.log2 + e :=
  log_of_significand hm le_rfl (lt_add_one _)

/-- The last place of a double is its exponent. -/
theorem IsDouble.lastPlace (h : IsDouble m e) (hm : 0 < m) (s : Sign) : lastPlace (signed s (m * 2 ^ e)) = e := by
  rw [Number.lastPlace, abs_signed, log_significand hm]
  rcases h with hnormal | ⟨hlt, rfl⟩
  · have hleast := hnormal.least
    rw [hnormal.log2]
    omega
  · have hlog : m.log2 < 52 := (Nat.log2_lt hm.ne').mpr hlt
    omega

/-- The value of a double is a multiple of its own last place. -/
theorem isMultiple_value (hx : x.isFinite = true) : IsMultiple (value x) (lastPlace (value x)) := by
  rcases finite_cases hx with ⟨s, hx⟩ | ⟨s, m, e, hm, hx⟩
  · rw [value_zero hx]
    exact isMultiple_zero _
  · rw [value_finite hx, (isDouble_of_unpack hx).lastPlace hm]
    cases s
    · exact IsMultiple.neg ⟨m, rfl⟩
    · exact ⟨m, rfl⟩

/-! ## Digits beyond a significand -/

/-- The significand and its residual bits are those of a number. -/
def Holds (em : ExtendedMantissa) (t : ℚ) : Prop := match em.accuracy with
  | .exact => t = em.mantissa
  | .inexact .lt => em.mantissa < t ∧ t < em.mantissa + 1 / 2
  | .inexact .eq => t = em.mantissa + 1 / 2
  | .inexact .gt => em.mantissa + 1 / 2 < t ∧ t < em.mantissa + 1

theorem holds_exact (m : Nat) : Holds (.ofMantissaAndAccuracy m .exact) m := rfl

theorem Holds.bounds {em : ExtendedMantissa} (h : Holds em t) : em.mantissa ≤ t ∧ t < em.mantissa + 1 := by
  obtain ⟨m, roundBit, stickyBit⟩ := em
  cases roundBit <;> cases stickyBit <;> simp only [Holds, ExtendedMantissa.accuracy] at h <;>
    constructor <;> linarith

/-- A significand that is moved to the right by one place holds the half. -/
theorem Holds.shiftRightOne {em : ExtendedMantissa} (h : Holds em t) : Holds em.shiftRightOne (t / 2) := by
  obtain ⟨m, roundBit, stickyBit⟩ := em
  obtain ⟨half, rfl | rfl⟩ : ∃ half, m = 2 * half ∨ m = 2 * half + 1 := ⟨m / 2, by omega⟩
  · have hhalf : 2 * half / 2 = half := by omega
    have heven : (2 * half % 2 != 0) = false := by rw [Nat.mul_mod_right]; rfl
    cases roundBit <;> cases stickyBit <;>
      simp only [Holds, ExtendedMantissa.shiftRightOne, ExtendedMantissa.accuracy, hhalf, heven, Bool.or_false,
        Bool.or_true, Nat.cast_mul, Nat.cast_ofNat] at h ⊢
    · linarith
    all_goals constructor <;> linarith
  · have hhalf : (2 * half + 1) / 2 = half := by omega
    have hodd : ((2 * half + 1) % 2 != 0) = true := by rw [show (2 * half + 1) % 2 = 1 by omega]; rfl
    cases roundBit <;> cases stickyBit <;>
      simp only [Holds, ExtendedMantissa.shiftRightOne, ExtendedMantissa.accuracy, hhalf, hodd, Bool.or_false,
        Bool.or_true, Nat.cast_add, Nat.cast_mul, Nat.cast_ofNat, Nat.cast_one] at h ⊢
    · linarith
    all_goals constructor <;> linarith

theorem Holds.shiftRight {em : ExtendedMantissa} (h : Holds em t) (k : Nat) : Holds (em >>> k) (t / 2 ^ k) := by
  show Holds (k.repeat ExtendedMantissa.shiftRightOne em) _
  induction k with
  | zero =>
    rw [pow_zero, div_one]
    exact h
  | succ k ih =>
    rw [pow_succ, ← div_div]
    exact ih.shiftRightOne

/-- The significand is rounded to the integer nearest to the number it holds. -/
theorem Holds.rounded {em : ExtendedMantissa} (h : Holds em t) : IsRounded t em.roundedMantissa := by
  obtain ⟨m, roundBit, stickyBit⟩ := em
  have hrounds (n : Nat) (hlt : |t - n| < 1 / 2) : IsRounded t n :=
    ⟨hlt.le, fun heq => absurd heq hlt.ne⟩
  cases roundBit <;> cases stickyBit
  · obtain rfl : t = m := h
    exact isRounded_intCast m
  · obtain ⟨hlow, hhigh⟩ : (m : ℚ) < t ∧ t < m + 1 / 2 := h
    exact hrounds m (abs_lt.mpr ⟨by linarith, by linarith⟩)
  · obtain rfl : t = m + 1 / 2 := h
    show IsRounded _ ((m + m % 2 : Nat) : ℤ)
    rcases Nat.mod_two_eq_zero_or_one m with heven | hodd
    · rw [heven]
      refine ⟨?_, fun _ => (Int.even_coe_nat _).mpr (Nat.even_iff.mpr heven)⟩
      norm_num
    · rw [hodd]
      refine ⟨?_, fun _ => (Int.even_coe_nat _).mpr (Nat.even_iff.mpr (by omega))⟩
      push_cast
      rw [show (m : ℚ) + 1 / 2 - (m + 1) = -(1 / 2) by ring, abs_neg]
      norm_num
  · obtain ⟨hlow, hhigh⟩ : (m : ℚ) + 1 / 2 < t ∧ t < m + 1 := h
    refine hrounds (m + 1) (abs_lt.mpr ⟨?_, ?_⟩) <;> push_cast <;> linarith

/-! ## Rounding -/

/-- The double is finite, and the one nearest to the number. -/
def Rounds (q : ℚ) (x : Float) : Prop := x.isFinite = true ∧ IsNearest q (value x)

theorem IsNearest.signed (h : IsNearest q r) (s : Sign) : IsNearest (signed s q) (signed s r) := by
  cases s
  · exact h.neg
  · exact h

theorem rounds_zero (h : IsNearest q 0) (s : Sign) : Rounds q (Float.ofModel (.pack (.zero s))) := by
  refine ⟨by cases s <;> rfl, ?_⟩
  rw [value_zero (s := s) (by cases s <;> rfl)]
  exact h

theorem rounds_double (h : IsDouble m e) (hm : 0 < m) (hq : IsNearest q (m * 2 ^ e)) (s : Sign) :
    Rounds (signed s q) (Float.ofModel (.pack (.finite s m e hm))) := by
  have hunpack : (Float.ofModel (.pack (.finite s m e hm))).toModel.unpack = .finite s m e hm :=
    unpack_pack_double h hm
  refine ⟨?_, ?_⟩
  · show (Float.ofModel (.pack (.finite s m e hm))).toModel.unpack.isFinite = true
    rw [hunpack]
    rfl
  · rw [value_finite hunpack]
    exact hq.signed s

/-- The last place of an exact result is where its significand is moved to, if it has digits enough. -/
theorem targetExponent_eq (hpos : 0 < t) (hle : (m : ℚ) ≤ t) (hlt : t < m + 1) (hplace : e ≤ lastPlace (t * 2 ^ e)) :
    Format.binary64.targetExponent (totalExponent m e) = lastPlace (t * 2 ^ e) := by
  unfold Format.targetExponent totalExponent
  rw [mantissaBits_binary64, minExponent_binary64]
  rcases Nat.eq_zero_or_pos m with rfl | hm
  · rw [Nat.cast_zero, zero_add] at hlt
    have hmag : |t * 2 ^ e| < 2 ^ e := by
      rw [abs_of_pos (mul_pos hpos (two_zpow_pos e))]
      exact mul_lt_of_lt_one_left (two_zpow_pos e) hlt
    have hne : t * 2 ^ e ≠ 0 := (mul_pos hpos (two_zpow_pos e)).ne'
    have hlog : Int.log 2 |t * 2 ^ e| < e :=
      (Int.lt_zpow_iff_log_lt (by norm_num) (abs_pos.mpr hne)).mp (by exact_mod_cast hmag)
    unfold lastPlace at *
    rw [show Nat.log2 0 = 0 from rfl]
    omega
  · unfold lastPlace
    rw [log_of_significand hm hle hlt]
    omega

theorem shiftToTargetExponent_eq {accuracy : Accuracy} (hheld : Holds (.ofMantissaAndAccuracy m accuracy) t)
    (hpos : 0 < t) (hplace : e ≤ lastPlace (t * 2 ^ e)) : ∃ em : ExtendedMantissa,
      shiftToTargetExponent .binary64 m e accuracy = (em, lastPlace (t * 2 ^ e)) ∧
        Holds em (t * 2 ^ e / 2 ^ lastPlace (t * 2 ^ e)) := by
  have hmantissa : (ExtendedMantissa.ofMantissaAndAccuracy m accuracy).mantissa = m := by
    cases accuracy with
    | exact => rfl
    | inexact order => cases order <;> rfl
  obtain ⟨hle, hlt⟩ := hheld.bounds
  rw [hmantissa] at hle hlt
  have htarget := targetExponent_eq hpos hle hlt hplace
  generalize lastPlace (t * 2 ^ e) = place at *
  obtain ⟨k, rfl⟩ := Int.le.dest hplace
  refine ⟨ExtendedMantissa.ofMantissaAndAccuracy m accuracy >>> k, ?_, ?_⟩
  · unfold shiftToTargetExponent shiftToExponent
    simp only [htarget, show (e + (k : Int) - e).toNat = k by omega]
  · rw [two_zpow_add, zpow_natCast, mul_comm (2 ^ e), mul_div_mul_right _ _ (two_zpow_pos e).ne']
    exact hheld.shiftRight k

/-- A significand that has been rounded need not be moved. -/
theorem shiftToTargetExponent_short (hlt : n < 2 ^ 53) (hleast : -1074 ≤ e) :
    shiftToTargetExponent .binary64 n e .exact = (.ofMantissaAndAccuracy n .exact, e) := by
  have htarget : (Format.binary64.targetExponent (totalExponent n e) - e).toNat = 0 := by
    have hlog : n.log2 ≤ 52 := by
      rcases Nat.eq_zero_or_pos n with rfl | hpos
      · decide
      · exact Nat.le_of_lt_succ ((Nat.log2_lt hpos.ne').mpr hlt)
    unfold Format.targetExponent totalExponent
    rw [mantissaBits_binary64, minExponent_binary64]
    omega
  unfold shiftToTargetExponent shiftToExponent
  simp only [htarget]
  exact Prod.ext rfl (Int.add_zero e)

/-- It is moved by one place if the digits have become one too many. -/
theorem shiftToTargetExponent_carry (hleast : -1074 ≤ e) :
    shiftToTargetExponent .binary64 (2 ^ 53) e .exact = (.ofMantissaAndAccuracy (2 ^ 52) .exact, e + 1) := by
  have htarget : (Format.binary64.targetExponent (totalExponent (2 ^ 53) e) - e).toNat = 1 := by
    unfold Format.targetExponent totalExponent
    rw [mantissaBits_binary64, minExponent_binary64, Nat.log2_two_pow]
    omega
  unfold shiftToTargetExponent shiftToExponent
  simp only [htarget]
  exact Prod.ext (shift_exact (2 ^ 52) 1) rfl

/-- The significand and the exponent of a number that has been rounded, be they those of a double or not. -/
structure IsResult (q : ℚ) (m : Nat) (e : Int) : Prop where
  nearest : IsNearest q (m * 2 ^ e)
  place : lastPlace q ≤ e
  short : m < 2 ^ 53
  long : e ≠ -1074 → 2 ^ 52 ≤ m
  /-- The exponent is that of the last place, or a carry has raised it. -/
  carry : e = lastPlace q ∧ IsRounded (q / 2 ^ lastPlace q) m ∨
    e = lastPlace q + 1 ∧ IsRounded (q / 2 ^ lastPlace q) (2 ^ 53)

/-- In units of the last place a number is rounded to no more than fifty-three digits, or to the power of two. -/
theorem IsRounded.significand_le {n : ℤ} (h : IsRounded (q / 2 ^ lastPlace q) n) (hq : 0 < q) : n ≤ 2 ^ 53 := by
  have hmag := abs_lt_lastPlace q
  rw [abs_of_pos hq, two_zpow_add, mul_comm] at hmag
  have hle : q / 2 ^ lastPlace q ≤ ((2 ^ 53 : ℤ) : ℚ) := (div_le_iff₀ (two_zpow_pos _)).mpr hmag.le
  exact h.ge_of_ge hle

/-- It has all these digits unless its last place is the least. -/
theorem IsRounded.le_significand {n : ℤ} (h : IsRounded (q / 2 ^ lastPlace q) n) (hq : 0 < q)
    (hne : lastPlace q ≠ -1074) : 2 ^ 52 ≤ n := by
  have hlog : lastPlace q + 52 ≤ Int.log 2 |q| := by
    unfold lastPlace at *
    omega
  rw [abs_of_pos hq] at hlog
  have hmag : (2 : ℚ) ^ (lastPlace q + 52) ≤ q := by
    exact_mod_cast (Int.zpow_le_iff_le_log (b := 2) (by norm_num) hq).mpr hlog
  rw [two_zpow_add, mul_comm] at hmag
  have hge : ((2 ^ 52 : ℤ) : ℚ) ≤ q / 2 ^ lastPlace q := (le_div_iff₀ (two_zpow_pos _)).mpr hmag
  exact h.le_of_le hge

theorem roundWithAccuracy_result {accuracy : Accuracy} (hheld : Holds (.ofMantissaAndAccuracy m accuracy) t)
    (hpos : 0 < t) (hplace : e ≤ lastPlace (t * 2 ^ e)) (s : Sign) : ∃ (m' : Nat) (e' : Int),
      IsResult (t * 2 ^ e) m' e' ∧ roundWithAccuracy .binary64 s m e accuracy
        = if h : m' = 0 then .zero s else .finite s m' e' (Nat.pos_of_ne_zero h) := by
  obtain ⟨em, hshift, hholds⟩ := shiftToTargetExponent_eq hheld hpos hplace
  have hqpos : 0 < t * 2 ^ e := mul_pos hpos (two_zpow_pos e)
  generalize hq : t * 2 ^ e = q at *
  have hrounded := hholds.rounded
  have hnearest : IsNearest q (em.roundedMantissa * 2 ^ lastPlace q) := ⟨em.roundedMantissa, by norm_cast, hrounded⟩
  have hleast := least_le_lastPlace q
  have hn : em.roundedMantissa ≤ 2 ^ 53 := by exact_mod_cast hrounded.significand_le hqpos
  have hlong (hne : lastPlace q ≠ -1074) : 2 ^ 52 ≤ em.roundedMantissa := by
    exact_mod_cast hrounded.le_significand hqpos hne
  unfold roundWithAccuracy
  simp only [hshift]
  rcases Nat.lt_or_ge em.roundedMantissa (2 ^ 53) with hshort | hfull
  · refine ⟨em.roundedMantissa, lastPlace q, ⟨hnearest, le_rfl, hshort, hlong, .inl ⟨rfl, hrounded⟩⟩, ?_⟩
    simp only [shiftToTargetExponent_short hshort hleast]
    rfl
  · have hall : em.roundedMantissa = 2 ^ 53 := le_antisymm hn hfull
    have hvalue : ((2 ^ 52 : Nat) : ℚ) * 2 ^ (lastPlace q + 1) = em.roundedMantissa * 2 ^ lastPlace q := by
      rw [hall, zpow_add_one₀ two_ne_zero]
      push_cast
      ring
    rw [← hvalue] at hnearest
    rw [hall] at hrounded
    refine ⟨2 ^ 52, lastPlace q + 1, ⟨hnearest, by omega, by decide, fun _ => le_rfl, .inr ⟨rfl, hrounded⟩⟩, ?_⟩
    simp only [hall, shiftToTargetExponent_carry hleast]
    rfl

/-- Halfway from the greatest double to the power of two behind it. -/
def overflowLimit : ℚ := 2 ^ (1024 : ℤ) - 2 ^ (970 : ℤ)

/-- It is half a unit below a power of two, in the unit of the greatest doubles. -/
theorem overflowLimit_eq : overflowLimit = (2 ^ 53 - 1 / 2) * 2 ^ (971 : ℤ) := by
  unfold overflowLimit
  rw [show (1024 : ℤ) = 53 + 971 by norm_num, show (970 : ℤ) = -1 + 971 by norm_num, two_zpow_add, two_zpow_add]
  generalize (2 : ℚ) ^ (971 : ℤ) = unit
  ring

theorem lt_overflowLimit (h : q < 2 ^ (1023 : ℤ)) : q < overflowLimit := by
  refine h.trans ?_
  rw [overflowLimit_eq, show (1023 : ℤ) = 52 + 971 by norm_num, two_zpow_add]
  exact mul_lt_mul_of_pos_right (by norm_num) (two_zpow_pos _)

/-- It is a double unless the exponent is too large. -/
theorem IsResult.isDouble_iff_most (h : IsResult q m e) : IsDouble m e ↔ e ≤ 971 := by
  have hleast := (least_le_lastPlace q).trans h.place
  constructor
  · rintro (hnormal | ⟨-, rfl⟩)
    · exact hnormal.most
    · decide
  · intro hmost
    rcases Nat.lt_or_ge m (2 ^ 52) with hsub | hlong
    · refine .inr ⟨hsub, ?_⟩
      by_contra hne
      exact (h.long hne).not_gt hsub
    · exact .inl ⟨hlong, h.short, hleast, hmost⟩

/-- The exponent is too large from the limit on. -/
theorem IsResult.most_iff (h : IsResult q m e) (hpos : 0 < q) : e ≤ 971 ↔ q < overflowLimit := by
  have hunit : (0 : ℚ) < 2 ^ (971 : ℤ) := two_zpow_pos _
  rw [overflowLimit_eq, ← div_lt_iff₀ hunit]
  constructor
  · intro hmost
    by_contra hlarge
    have hle := not_lt.mp hlarge
    have hplace : 971 ≤ lastPlace q := by
      refine le_lastPlace ?_
      rw [abs_of_pos hpos, show (971 : ℤ) + 52 = 52 + 971 by norm_num, two_zpow_add, ← le_div_iff₀ hunit]
      exact le_trans (by norm_num) hle
    rcases h.carry with ⟨heq, hrounded⟩ | ⟨heq, -⟩
    · rw [show lastPlace q = 971 by omega] at hrounded
      -- the power of two is even, and the middle goes to it
      have hfull : (2 ^ 53 : ℤ) ≤ m := hrounded.ge_of_even (by decide) (by exact_mod_cast hle)
      have hshort := h.short
      omega
    · omega
  · intro hsmall
    have hplace : lastPlace q ≤ 971 := by
      refine lastPlace_le hpos.ne' (by decide) ?_
      rw [abs_of_pos hpos, show (971 : ℤ) + 53 = 53 + 971 by norm_num, two_zpow_add, ← div_lt_iff₀ hunit]
      exact hsmall.trans (by norm_num)
    rcases h.carry with ⟨heq, -⟩ | ⟨heq, hrounded⟩
    · omega
    · rcases hplace.lt_or_eq with hlt | hall
      · omega
      · rw [hall] at hrounded
        exact absurd (hrounded.lt_of_lt (m := 2 ^ 53) (by exact_mod_cast hsmall)) (lt_irrefl _)

/-- The numbers below that limit, and no others, are rounded to doubles. -/
theorem IsResult.isDouble_iff (h : IsResult q m e) (hpos : 0 < q) : IsDouble m e ↔ q < overflowLimit :=
  h.isDouble_iff_most.trans (h.most_iff hpos)

/-- **An exact result is rounded to the nearest double**, if it is not too large for one and its significand was
not cut short. -/
theorem roundWithAccuracy_rounds {accuracy : Accuracy} (hheld : Holds (.ofMantissaAndAccuracy m accuracy) t)
    (hpos : 0 < t) (hplace : e ≤ lastPlace (t * 2 ^ e)) (hsmall : t * 2 ^ e < overflowLimit) (s : Sign) :
    Rounds (signed s (t * 2 ^ e)) (Float.ofModel (.pack (roundWithAccuracy .binary64 s m e accuracy))) := by
  obtain ⟨m', e', hresult, heq⟩ := roundWithAccuracy_result hheld hpos hplace s
  have hnearest := hresult.nearest
  rw [heq]
  split
  · next hnone =>
    -- less than half the least unit is nothing
    rw [hnone, Nat.cast_zero, zero_mul] at hnearest
    refine rounds_zero ?_ s
    have hzero := hnearest.signed s
    rwa [show signed s 0 = 0 by cases s <;> simp [signed]] at hzero
  · next hsome =>
    have hm := Nat.pos_of_ne_zero hsome
    exact rounds_double ((hresult.isDouble_iff (mul_pos hpos (two_zpow_pos e))).mpr hsmall) hm hnearest s

/-! ## Quotients -/

theorem holds_fraction {num den : Nat} (hlt : num < den) (m : Nat) :
    Holds (.ofMantissaAndAccuracy m (accuracyOfFraction num den)) (m + num / den) := by
  have hden : (0 : ℚ) < den := Nat.cast_pos.mpr (by omega)
  have hless : (num : ℚ) / den < 1 := (div_lt_one hden).mpr (Nat.cast_lt.mpr hlt)
  unfold accuracyOfFraction
  split
  · next hzero =>
    rw [hzero, Nat.cast_zero, zero_div, add_zero]
    exact holds_exact m
  · next hne =>
    have hpos : 0 < (num : ℚ) / den := div_pos (Nat.cast_pos.mpr (Nat.pos_of_ne_zero hne)) hden
    cases hcompare : compare (2 * num) den with
    | lt =>
      have hhalf : ((2 * num : Nat) : ℚ) < den := Nat.cast_lt.mpr (Nat.compare_eq_lt.mp hcompare)
      push_cast at hhalf
      refine ⟨lt_add_of_pos_right _ hpos, add_lt_add_right ?_ _⟩
      rw [div_lt_div_iff₀ hden two_pos]
      linarith
    | eq =>
      have hhalf : ((2 * num : Nat) : ℚ) = den := Nat.cast_inj.mpr (Nat.compare_eq_eq.mp hcompare)
      push_cast at hhalf
      refine congrArg (_ + ·) ?_
      rw [div_eq_div_iff hden.ne' two_ne_zero]
      linarith
    | gt =>
      have hhalf : (den : ℚ) < (2 * num : Nat) := Nat.cast_lt.mpr (Nat.compare_eq_gt.mp hcompare)
      push_cast at hhalf
      refine ⟨add_lt_add_right ?_ _, add_lt_add_right hless _⟩
      rw [div_lt_div_iff₀ two_pos hden]
      linarith

/-- The quotient of two significands has fifty-three places, or as many as there are. -/
theorem divCore_holds (hm : 0 < m) (hm' : 0 < m') (e e' : Int) : ∃ (k : Nat) (place : Int) (t : ℚ),
    divCore .binary64 m e m' e' = (m <<< k / m', place, accuracyOfFraction (m <<< k % m') m') ∧
      Holds (.ofMantissaAndAccuracy (m <<< k / m') (accuracyOfFraction (m <<< k % m') m')) t ∧
      t * 2 ^ place = m * 2 ^ e / (m' * 2 ^ e') ∧ place ≤ lastPlace (t * 2 ^ place) := by
  obtain ⟨place, hplace⟩ : ∃ place, place
      = min (e - e') (Format.binary64.targetExponent (totalExponent m e - totalExponent m' e')) := ⟨_, rfl⟩
  obtain ⟨k, hk⟩ := Int.le.dest (show place ≤ e - e' from hplace ▸ min_le_left _ _)
  have hden : (0 : ℚ) < m' := Nat.cast_pos.mpr hm'
  have hvalue : ((m * 2 ^ k : Nat) : ℚ) / m' * 2 ^ place = m * 2 ^ e / (m' * 2 ^ e') := by
    rw [show e = place + k + e' by omega, two_zpow_add, two_zpow_add, ← mul_assoc,
      mul_div_mul_right _ _ (two_zpow_pos e').ne', zpow_natCast]
    push_cast
    ring
  refine ⟨k, place, (m * 2 ^ k : Nat) / m', ?_, ?_, hvalue, ?_⟩
  · unfold divCore
    simp only [← hplace, show (e - e' - place).toNat = k by omega]
  · rw [Nat.shiftLeft_eq]
    have hheld := holds_fraction (Nat.mod_lt (m * 2 ^ k) hm') (m * 2 ^ k / m')
    have hsplit : (((m * 2 ^ k : Nat) : ℚ)) = m' * (m * 2 ^ k / m' : Nat) + (m * 2 ^ k % m' : Nat) := by
      exact_mod_cast (Nat.div_add_mod (m * 2 ^ k) m').symm
    rwa [hsplit, add_div, mul_div_cancel_left₀ _ hden.ne']
  · -- the quotient is at least the first digit of the one over twice that of the other
    have hfirst : place ≤ max (m.log2 + e - m'.log2 - e' - 53) (-1074) := by
      unfold Format.targetExponent totalExponent at hplace
      rw [mantissaBits_binary64, minExponent_binary64] at hplace
      omega
    refine hfirst.trans (max_le (le_lastPlace ?_) (least_le_lastPlace _))
    obtain ⟨hlow, -⟩ := significand_bounds hm
    obtain ⟨-, hhigh⟩ := significand_bounds hm'
    have hpos : (0 : ℚ) < m' * 2 ^ e' := mul_pos hden (two_zpow_pos e')
    rw [hvalue]
    refine le_trans ?_ (le_abs_self _)
    rw [le_div_iff₀ hpos]
    calc (2 : ℚ) ^ ((m.log2 : Int) + e - m'.log2 - e' - 53 + 52) * (m' * 2 ^ e')
        ≤ 2 ^ ((m.log2 : Int) + e - m'.log2 - e' - 53 + 52) * (2 ^ ((m'.log2 + 1 : Nat) : Int) * 2 ^ e') := by
          refine mul_le_mul_of_nonneg_left (mul_le_mul_of_nonneg_right ?_ (two_zpow_pos e').le) (two_zpow_pos _).le
          rw [zpow_natCast]
          linarith
      _ = 2 ^ m.log2 * 2 ^ e := by
          rw [← two_zpow_add, ← two_zpow_add, ← zpow_natCast, ← two_zpow_add]
          congr 1
          push_cast
          ring
      _ ≤ m * 2 ^ e := mul_le_mul_of_nonneg_right hlow (two_zpow_pos e).le

theorem div_rounds (hx : x.isFinite = true) (hy : y.isFinite = true) (hne : value y ≠ 0)
    (hsmall : |value x / value y| < 2 ^ (1023 : ℤ)) : Rounds (value x / value y) (x / y) := by
  show Rounds _ (Float.ofModel (.pack (div .binary64 x.toModel.unpack y.toModel.unpack)))
  rcases finite_cases hy with ⟨s', hy⟩ | ⟨s', m', e', hm', hy⟩
  · exact absurd (value_zero hy) hne
  rcases finite_cases hx with ⟨s, hx⟩ | ⟨s, m, e, hm, hx⟩
  · rw [hx, hy, value_zero hx, zero_div]
    exact rounds_zero isNearest_zero _
  · rw [value_finite hx, value_finite hy, signed_div] at hsmall ⊢
    obtain ⟨k, place, t, hcore, hheld, hvalue, hplace⟩ := divCore_holds hm hm' e e'
    rw [hx, hy, div]
    simp only [hcore]
    rw [← hvalue] at hsmall ⊢
    have hnum : (0 : ℚ) < m * 2 ^ e := mul_pos (Nat.cast_pos.mpr hm) (two_zpow_pos e)
    have hden : (0 : ℚ) < m' * 2 ^ e' := mul_pos (Nat.cast_pos.mpr hm') (two_zpow_pos e')
    have hpos : 0 < t := pos_of_mul_pos_left (hvalue ▸ div_pos hnum hden) (two_zpow_pos place).le
    refine roundWithAccuracy_rounds hheld hpos hplace (lt_overflowLimit ?_) _
    rw [abs_signed] at hsmall
    exact (le_abs_self _).trans_lt hsmall

/-! ## Products -/

/-- Of two significands of doubles one is as long as it can be, or both are as small as can be. -/
theorem mul_place (h : IsDouble m e) (h' : IsDouble m' e') (hm : 0 < m) (hm' : 0 < m') :
    e + e' ≤ lastPlace ((m * m' : Nat) * 2 ^ (e + e')) := by
  have hpos : 0 < m * m' := Nat.mul_pos hm hm'
  have hlong (hlow : 2 ^ 52 ≤ m * m') : e + e' ≤ lastPlace ((m * m' : Nat) * 2 ^ (e + e')) := by
    have hlog : 52 ≤ (m * m').log2 := (Nat.le_log2 hpos.ne').mpr hlow
    rw [lastPlace, log_significand hpos]
    omega
  rcases h with hnormal | ⟨-, rfl⟩
  · exact hlong (hnormal.low.trans (Nat.le_mul_of_pos_right m hm'))
  · rcases h' with hnormal | ⟨-, rfl⟩
    · exact hlong (hnormal.low.trans (Nat.le_mul_of_pos_left m' hm))
    · exact le_trans (by decide) (least_le_lastPlace _)

theorem mul_rounds (hx : x.isFinite = true) (hy : y.isFinite = true)
    (hsmall : |value x * value y| < 2 ^ (1023 : ℤ)) : Rounds (value x * value y) (x * y) := by
  show Rounds _ (Float.ofModel (.pack (mul .binary64 x.toModel.unpack y.toModel.unpack)))
  rcases finite_cases hx with ⟨s, hx⟩ | ⟨s, m, e, hm, hx⟩
  · rw [value_zero hx, zero_mul]
    rcases finite_cases hy with ⟨s', hy⟩ | ⟨s', m', e', hm', hy⟩
    all_goals
      rw [hx, hy]
      exact rounds_zero isNearest_zero _
  rcases finite_cases hy with ⟨s', hy⟩ | ⟨s', m', e', hm', hy⟩
  · rw [value_zero hy, mul_zero, hx, hy]
    exact rounds_zero isNearest_zero _
  · have hplace := mul_place (isDouble_of_unpack hx) (isDouble_of_unpack hy) hm hm'
    have hvalue : (m : ℚ) * 2 ^ e * (m' * 2 ^ e') = (m * m' : Nat) * 2 ^ (e + e') := by
      rw [two_zpow_add]
      push_cast
      ring
    rw [value_finite hx, value_finite hy, signed_mul, hvalue] at hsmall ⊢
    rw [abs_signed] at hsmall
    have hlt := (le_abs_self _).trans_lt hsmall
    rw [hx, hy, mul]
    exact roundWithAccuracy_rounds (holds_exact _) (Nat.cast_pos.mpr (Nat.mul_pos hm hm')) hplace (lt_overflowLimit hlt) _

/-! ## Differences -/

/-- A significand is given digits enough before it is rounded. -/
theorem round_rounds (hm : 0 < m) (hsmall : (m : ℚ) * 2 ^ e < 2 ^ (1023 : ℤ)) (s : Sign) :
    Rounds (signed s (m * 2 ^ e)) (Float.ofModel (.pack (UnpackedFloat.round .binary64 s m e))) := by
  obtain ⟨k, place, hdecrease, hvalue, hplace⟩ : ∃ (k : Nat) (place : Int),
      decreaseExponent m e (Format.binary64.targetExponent (totalExponent m e)) = (m * 2 ^ k, place) ∧
        ((m * 2 ^ k : Nat) : ℚ) * 2 ^ place = m * 2 ^ e ∧ place ≤ lastPlace (m * 2 ^ e) := by
    obtain ⟨target, htarget⟩ : ∃ target, target = Format.binary64.targetExponent (totalExponent m e) := ⟨_, rfl⟩
    refine ⟨(e - target).toNat, e - (e - target).toNat, ?_, ?_, ?_⟩
    · rw [← htarget, ← Nat.shiftLeft_eq]
      rfl
    · push_cast
      rw [mul_assoc, ← zpow_natCast, ← two_zpow_add]
      congr 2
      ring
    · unfold Format.targetExponent totalExponent at htarget
      rw [mantissaBits_binary64, minExponent_binary64] at htarget
      rw [lastPlace, log_significand hm]
      omega
  have hpos : ((m * 2 ^ k : Nat) : ℚ) > 0 := Nat.cast_pos.mpr (Nat.mul_pos hm (Nat.two_pow_pos k))
  unfold UnpackedFloat.round
  simp only [hdecrease]
  rw [← hvalue] at hsmall hplace ⊢
  exact roundWithAccuracy_rounds (holds_exact _) hpos hplace (lt_overflowLimit hsmall) s

theorem normalize_rounds {z : Int} (hsmall : |(z : ℚ) * 2 ^ e| < 2 ^ (1023 : ℤ)) :
    Rounds (z * 2 ^ e) (Float.ofModel (.pack (UnpackedFloat.normalize .binary64 z e .positive))) := by
  unfold UnpackedFloat.normalize
  cases hcompare : compare z 0 with
  | lt =>
    have hneg := Int.compare_eq_lt.mp hcompare
    obtain ⟨n, rfl⟩ : ∃ n : Nat, z = -n := ⟨(-z).toNat, by omega⟩
    rw [Int.cast_neg, Int.cast_natCast, neg_mul] at hsmall ⊢
    rw [abs_neg] at hsmall
    simp only [Int.neg_neg, Int.toNat_natCast]
    exact round_rounds (by omega) ((le_abs_self _).trans_lt hsmall) .negative
  | eq =>
    rw [Int.compare_eq_eq.mp hcompare, Int.cast_zero, zero_mul]
    exact rounds_zero isNearest_zero _
  | gt =>
    have hpos := Int.compare_eq_gt.mp hcompare
    obtain ⟨n, rfl⟩ : ∃ n : Nat, z = n := ⟨z.toNat, by omega⟩
    rw [Int.cast_natCast] at hsmall ⊢
    simp only [Int.toNat_natCast]
    exact round_rounds (by omega) ((le_abs_self _).trans_lt hsmall) .positive

theorem apply_value (s : Sign) (n : Nat) : ((s.apply n : Int) : ℚ) = signed s n := by
  cases s
  · exact Int.cast_neg _
  · rfl

/-- A significand that is brought to a lesser exponent has the same value. -/
theorem apply_decreaseExponent (s : Sign) (m : Nat) (hle : e' ≤ e) :
    ((s.apply (decreaseExponent m e e').1 : Int) : ℚ) * 2 ^ e' = signed s (m * 2 ^ e) := by
  obtain ⟨k, rfl⟩ := Int.le.dest hle
  have hvalue : ((m * 2 ^ k : Nat) : ℚ) * 2 ^ e' = m * 2 ^ (e' + k) := by
    rw [two_zpow_add, zpow_natCast]
    push_cast
    ring
  unfold decreaseExponent
  simp only [show (e' + k - e').toNat = k by omega, Nat.shiftLeft_eq, apply_value]
  rw [← hvalue]
  cases s
  · exact neg_mul _ _
  · rfl

theorem rounds_self (h : IsDouble m e) (hm : 0 < m) (s : Sign) :
    Rounds (signed s (m * 2 ^ e)) (Float.ofModel (.pack (.finite s m e hm))) := by
  have hplace := h.lastPlace hm .positive
  refine rounds_double h hm (isNearest_self ⟨m, ?_⟩) s
  rw [show lastPlace (m * 2 ^ e) = e from hplace]
  rfl

theorem sub_rounds (hx : x.isFinite = true) (hy : y.isFinite = true)
    (hsmall : |value x - value y| < 2 ^ (1023 : ℤ)) : Rounds (value x - value y) (x - y) := by
  show Rounds _ (Float.ofModel (.pack (sub .binary64 x.toModel.unpack y.toModel.unpack)))
  rcases finite_cases hx with ⟨s, hx⟩ | ⟨s, m, e, hm, hx⟩ <;>
    rcases finite_cases hy with ⟨s', hy⟩ | ⟨s', m', e', hm', hy⟩
  · rw [value_zero hx, value_zero hy, sub_zero, hx, hy, sub]
    split <;> exact rounds_zero isNearest_zero _
  · rw [value_zero hx, value_finite hy, zero_sub, ← signed_neg, hx, hy, sub]
    exact rounds_self (isDouble_of_unpack hy) hm' _
  · rw [value_finite hx, value_zero hy, sub_zero, hx, hy]
    exact rounds_self (isDouble_of_unpack hx) hm _
  · rw [value_finite hx, value_finite hy, ← apply_decreaseExponent s m (min_le_left e e'),
      ← apply_decreaseExponent s' m' (min_le_right e e'), ← sub_mul, ← Int.cast_sub] at hsmall ⊢
    rw [hx, hy, sub]
    exact normalize_rounds hsmall

/-! ## Sums -/

theorem add_rounds (hx : x.isFinite = true) (hy : y.isFinite = true)
    (hsmall : |value x + value y| < 2 ^ (1023 : ℤ)) : Rounds (value x + value y) (x + y) := by
  show Rounds _ (Float.ofModel (.pack (add .binary64 x.toModel.unpack y.toModel.unpack)))
  rcases finite_cases hx with ⟨s, hx⟩ | ⟨s, m, e, hm, hx⟩ <;>
    rcases finite_cases hy with ⟨s', hy⟩ | ⟨s', m', e', hm', hy⟩
  · rw [value_zero hx, value_zero hy, add_zero, hx, hy, add]
    split <;> exact rounds_zero isNearest_zero _
  · rw [value_zero hx, value_finite hy, zero_add, hx, hy]
    exact rounds_self (isDouble_of_unpack hy) hm' _
  · rw [value_finite hx, value_zero hy, add_zero, hx, hy]
    exact rounds_self (isDouble_of_unpack hx) hm _
  · rw [value_finite hx, value_finite hy, ← apply_decreaseExponent s m (min_le_left e e'),
      ← apply_decreaseExponent s' m' (min_le_right e e'), ← add_mul, ← Int.cast_add] at hsmall ⊢
    rw [hx, hy, add]
    exact normalize_rounds hsmall

end LiveTemplate.Number
