import LiveTemplate.Number.Scientific
import LiveTemplate.Proofs.Number.Floor
/-!
# Doubles from decimals

A decimal is read as the double that is nearest to it, whatever the number of its digits, and as infinity from
halfway between the greatest double and the power of two behind it (`ofDecimal_nearest`).  A short one is a
quotient of two doubles, and a quotient is rounded once; of a long one an exact quotient is rounded; and of the
rest the digits alone tell that they are too large or too small.

There is no more than one such double, because a magnitude has no sign (`IsNearestDouble.unique`).
-/

set_option autoImplicit false

namespace LiveTemplate.Number

open Float.Model (Format UnpackedFloat totalExponent)
open Float.Model.UnpackedFloat

variable {s : Sign} {m n k : Nat} {e : Int} {q t : ℚ} {x y : Float} {u : UnpackedFloat}

/-! ## Signs -/

/-- The sign of a double, also of a zero or an infinity. -/
def signOf (x : Float) : Sign := signField x.toBits

/-- The sign of an unpacked double. -/
def unpackedSign : UnpackedFloat → Sign
  | .infinity s => s
  | .zero s => s
  | .finite s .. => s
  | .notANumber => .positive

theorem signOf_pack (h : u ≠ .notANumber) : signOf (Float.ofModel (.pack u)) = unpackedSign u := by
  have hbits : signOf (Float.ofModel (.pack u)) = Sign.ofBitVec (@unpackSign Format.binary64 (pack .binary64 u)) := rfl
  rw [hbits]
  fun_cases pack with
  | case1 => exact absurd rfl h
  | case2 s => rw [packedInfinity, unpackSign_packComponents, Sign.ofBitVec_toBitVec]; rfl
  | case3 s => rw [packedZero, unpackSign_packComponents, Sign.ofBitVec_toBitVec]; rfl
  | case4 s => rw [packedInfinity, unpackSign_packComponents, Sign.ofBitVec_toBitVec]; rfl
  | case5 s => rw [unpackSign_packComponents, Sign.ofBitVec_toBitVec]; rfl
  | case6 s => rw [unpackSign_packComponents, Sign.ofBitVec_toBitVec]; rfl

theorem signOf_eq (h : x.isNaN = false) : signOf x = unpackedSign x.toModel.unpack := by
  rw [← signOf_pack (unpack_ne h), ofModel_unpack]

/-- A finite double without a minus is a zero or has a significand. -/
theorem positive_cases (hx : x.isFinite = true) (hsign : signOf x = .positive) :
    x.toModel.unpack = .zero .positive ∨
      ∃ (m : Nat) (e : Int) (hm : 0 < m), x.toModel.unpack = .finite .positive m e hm := by
  rw [signOf_eq (isNaN_of_isFinite hx)] at hsign
  rcases finite_cases hx with ⟨s, hx⟩ | ⟨s, m, e, hm, hx⟩
  · rw [hx] at hsign
    exact .inl (hsign ▸ hx)
  · rw [hx] at hsign
    exact .inr ⟨m, e, hm, hsign ▸ hx⟩

/-- A double is what it stands for, and its sign. -/
theorem eq_of_value (hx : x.isFinite = true) (hy : y.isFinite = true) (hvalue : value x = value y)
    (hsign : signOf x = signOf y) : x = y := by
  rw [signOf_eq (isNaN_of_isFinite hx), signOf_eq (isNaN_of_isFinite hy)] at hsign
  suffices hunpack : x.toModel.unpack = y.toModel.unpack by rw [← ofModel_unpack x, hunpack, ofModel_unpack]
  have hpos {m : Nat} {e : Int} (hm : 0 < m) (s : Sign) : signed s (m * 2 ^ e) ≠ 0 := by
    rw [← abs_ne_zero, abs_signed, abs_ne_zero]
    exact (mul_pos (Nat.cast_pos.mpr hm) (two_zpow_pos e)).ne'
  rcases finite_cases hx with ⟨s, hx⟩ | ⟨s, m, e, hm, hx⟩ <;>
    rcases finite_cases hy with ⟨s', hy⟩ | ⟨s', m', e', hm', hy⟩ <;>
    rw [hx, hy] at hsign <;> rw [hx, hy]
  · exact congrArg UnpackedFloat.zero hsign
  · rw [value_zero hx, value_finite hy] at hvalue
    exact absurd hvalue.symm (hpos hm' s')
  · rw [value_finite hx, value_zero hy] at hvalue
    exact absurd hvalue (hpos hm s)
  · obtain rfl : s = s' := hsign
    rw [value_finite hx, value_finite hy] at hvalue
    have hplace := (isDouble_of_unpack hx).lastPlace hm s
    rw [hvalue, (isDouble_of_unpack hy).lastPlace hm' s] at hplace
    subst hplace
    have hmagnitude : (m : ℚ) * 2 ^ e' = m' * 2 ^ e' := by
      cases s
      · exact neg_inj.mp hvalue
      · exact hvalue
    obtain rfl : m = m' := Nat.cast_inj.mp (mul_right_cancel₀ (two_zpow_pos e').ne' hmagnitude)
    rfl

/-! ## The nearest double of a magnitude -/

/-- The double that a magnitude is rounded to: the nearest one, without a minus, or infinity if the magnitude is
too large. -/
structure IsNearestDouble (q : ℚ) (x : Float) : Prop where
  sign : signOf x = .positive
  finite : q < overflowLimit → Rounds q x
  infinite : overflowLimit ≤ q → x = infinity

theorem IsNearestDouble.unique (h : IsNearestDouble q x) (h' : IsNearestDouble q y) : x = y := by
  rcases lt_or_ge q overflowLimit with hlt | hge
  · obtain ⟨hx, hnearest⟩ := h.finite hlt
    obtain ⟨hy, hnearest'⟩ := h'.finite hlt
    exact eq_of_value hx hy (hnearest.unique hnearest') (h.sign.trans h'.sign.symm)
  · rw [h.infinite hge, h'.infinite hge]

theorem Rounds.isNearestDouble (h : Rounds q x) (hlt : q < overflowLimit) (hsign : signOf x = .positive) :
    IsNearestDouble q x := ⟨hsign, fun _ => h, fun hge => absurd hlt hge.not_gt⟩

theorem overflowLimit_pos : 0 < overflowLimit := by
  rw [overflowLimit_eq]
  exact mul_pos (by norm_num) (two_zpow_pos _)

theorem isNearestDouble_zero (h : IsNearest q 0) (hlt : q < overflowLimit) : IsNearestDouble q 0.0 :=
  Rounds.isNearestDouble (rounds_zero h .positive) hlt rfl

/-- A number of no more than half the least double is rounded to zero. -/
theorem isNearest_zero_of_small (hq : 0 ≤ q) (hsmall : q ≤ 2 ^ (-1075 : ℤ)) : IsNearest q 0 := by
  rcases hq.eq_or_lt with rfl | hpos
  · exact isNearest_zero
  · have hplace : lastPlace q = -1074 := by
      refine le_antisymm (lastPlace_le hpos.ne' le_rfl ?_) (least_le_lastPlace q)
      rw [abs_of_pos hpos]
      exact lt_two_zpow_of_le hsmall (by decide)
    refine ⟨0, by rw [Int.cast_zero, zero_mul], ?_, fun _ => Even.zero⟩
    rw [hplace, Int.cast_zero, sub_zero, abs_of_nonneg (div_nonneg hq (two_zpow_pos _).le),
      div_le_iff₀ (two_zpow_pos _)]
    refine hsmall.trans_eq ?_
    rw [show (-1075 : ℤ) = -1 + -1074 by norm_num, two_zpow_add]
    norm_num

theorem pack_overflow {hm : 0 < m} (he : 972 ≤ e) :
    pack .binary64 (.finite s m e hm) = packedInfinity .binary64 s := by
  rw [pack]
  refine if_pos ?_
  rw [exponentBias_binary64]
  show 2 ^ 11 ≤ (e + ((1023 : Nat) : Int) + ((52 : Nat) : Int)).toNat + 1
  omega

theorem unpackedSign_roundWithAccuracy (m : Nat) (e : Int) (accuracy : Accuracy) :
    unpackedSign (roundWithAccuracy .binary64 s m e accuracy) = s := by
  unfold roundWithAccuracy
  dsimp only
  split <;> rfl

theorem signOf_roundWithAccuracy (m : Nat) (e : Int) (accuracy : Accuracy) :
    signOf (Float.ofModel (.pack (roundWithAccuracy .binary64 s m e accuracy))) = s := by
  rw [signOf_pack (roundWithAccuracy_ne _ _ _ _ _), unpackedSign_roundWithAccuracy]

/-- A result from the limit on is too large for a double. -/
theorem IsResult.large (h : IsResult q m e) (hq : 0 < q) (hge : overflowLimit ≤ q) : 972 ≤ e ∧ 2 ^ 52 ≤ m := by
  have hmost : ¬e ≤ 971 := fun hmost => hge.not_gt ((h.most_iff hq).mp hmost)
  exact ⟨by omega, h.long (by omega)⟩

/-- **An exact result without a sign is rounded to the nearest double**, or to infinity. -/
theorem roundWithAccuracy_nearest {accuracy : Accuracy} (hheld : Holds (.ofMantissaAndAccuracy m accuracy) t)
    (hpos : 0 < t) (hplace : e ≤ lastPlace (t * 2 ^ e)) :
    IsNearestDouble (t * 2 ^ e) (Float.ofModel (.pack (roundWithAccuracy .binary64 .positive m e accuracy))) where
  sign := signOf_roundWithAccuracy m e accuracy
  finite hlt := roundWithAccuracy_rounds hheld hpos hplace hlt .positive
  infinite hge := by
    obtain ⟨m', e', hresult, heq⟩ := roundWithAccuracy_result hheld hpos hplace .positive
    have hlarge := hresult.large (mul_pos hpos (two_zpow_pos e)) hge
    have hbits (hm : 0 < m') : (Float.ofModel (.pack (.finite .positive m' e' hm))).toBits
        = UInt64.ofBitVec (pack .binary64 (.finite .positive m' e' hm)) := rfl
    rw [heq, dif_neg (by omega), ← Float.ofBits_toBits (Float.ofModel _), hbits, pack_overflow hlarge.1]
    rfl

/-! ## Signs of results -/

theorem signOf_round (m : Nat) (e : Int) : signOf (Float.ofModel (.pack (UnpackedFloat.round .binary64 s m e))) = s :=
  signOf_roundWithAccuracy _ _ _

theorem signOf_normalize {z : Int} (hz : 0 ≤ z) (e : Int) :
    signOf (Float.ofModel (.pack (UnpackedFloat.normalize .binary64 z e .positive))) = .positive := by
  unfold UnpackedFloat.normalize
  cases hcompare : compare z 0 with
  | lt => exact absurd (Int.compare_eq_lt.mp hcompare) hz.not_gt
  | eq => exact signOf_pack nofun
  | gt => exact signOf_round _ _

section Positive

variable (hx : x.isFinite = true) (hy : y.isFinite = true) (hsign : signOf x = .positive) (hsign' : signOf y = .positive)
include hx hy hsign hsign'

theorem signOf_add : signOf (x + y) = .positive := by
  show signOf (Float.ofModel (.pack (add .binary64 x.toModel.unpack y.toModel.unpack))) = _
  rcases positive_cases hx hsign with hx | ⟨m, e, hm, hx⟩ <;>
    rcases positive_cases hy hsign' with hy | ⟨m', e', hm', hy⟩ <;> rw [hx, hy]
  · rfl
  · exact signOf_pack (by simp [add])
  · exact signOf_pack (by simp [add])
  · exact signOf_normalize (Int.add_nonneg (Int.natCast_nonneg _) (Int.natCast_nonneg _)) _

theorem signOf_mul : signOf (x * y) = .positive := by
  show signOf (Float.ofModel (.pack (mul .binary64 x.toModel.unpack y.toModel.unpack))) = _
  rcases positive_cases hx hsign with hx | ⟨m, e, hm, hx⟩ <;>
    rcases positive_cases hy hsign' with hy | ⟨m', e', hm', hy⟩ <;> rw [hx, hy]
  · rfl
  · exact signOf_pack (by simp [mul])
  · exact signOf_pack (by simp [mul])
  · exact signOf_roundWithAccuracy _ _ _

theorem signOf_div (hne : value y ≠ 0) : signOf (x / y) = .positive := by
  show signOf (Float.ofModel (.pack (div .binary64 x.toModel.unpack y.toModel.unpack))) = _
  rcases positive_cases hy hsign' with hy | ⟨m', e', hm', hy⟩
  · exact absurd (value_zero hy) hne
  · rcases positive_cases hx hsign with hx | ⟨m, e, hm, hx⟩ <;> rw [hx, hy]
    · exact signOf_pack (by simp [div])
    · exact signOf_roundWithAccuracy _ _ _

end Positive

/-! ## Quotients of integers -/

/-- The double stands for the integer, and is not the negative zero. -/
structure IsInteger (n : Nat) (x : Float) : Prop where
  finite : x.isFinite = true
  value : value x = n
  sign : signOf x = .positive

/-- A small integer as a double is not rounded. -/
theorem toFloat_whole (hlt : m < 2 ^ 53) : IsInteger m m.toUInt64.toFloat := by
  have hword : m.toUInt64.toNat = m := by
    show m % 2 ^ 64 = m
    omega
  have heq : m.toUInt64.toFloat = Float.ofModel (.pack (UnpackedFloat.normalize .binary64 (m : Int) 0 .positive)) := by
    show Float.ofModel (.pack (UnpackedFloat.normalize .binary64 (m.toUInt64.toNat : Int) 0 .positive)) = _
    rw [hword]
  have hmag : |(m : ℚ)| < 2 ^ (53 : ℤ) := by
    rw [abs_of_nonneg (Nat.cast_nonneg m)]
    exact_mod_cast hlt
  have hrounds := normalize_rounds (z := m) (e := 0)
  rw [Int.cast_natCast, zpow_zero, mul_one] at hrounds
  obtain ⟨hfinite, hnearest⟩ := hrounds (lt_two_zpow hmag (by decide))
  rw [heq]
  refine ⟨hfinite, hnearest.eq_of_multiple ?_, signOf_normalize (Int.natCast_nonneg m) 0⟩
  exact isMultiple_intCast m (lastPlace_le_of_lt (by decide) hmag)

theorem div_nearest (hm : 0 < m) (hn : 0 < n) : IsNearestDouble ((m : ℚ) / n)
    (Float.ofModel (.pack (div .binary64 (.finite .positive m 0 hm) (.finite .positive n 0 hn)))) := by
  obtain ⟨k, place, t, hcore, hheld, hvalue, hplace⟩ := divCore_holds hm hn 0 0
  rw [zpow_zero, mul_one, mul_one] at hvalue
  have hpos : 0 < t := by
    refine pos_of_mul_pos_left (b := 2 ^ place) ?_ (two_zpow_pos place).le
    rw [hvalue]
    exact div_pos (Nat.cast_pos.mpr hm) (Nat.cast_pos.mpr hn)
  rw [div]
  simp only [hcore]
  rw [← hvalue]
  exact roundWithAccuracy_nearest hheld hpos hplace

/-! ## Integers whose double is given -/

/-- Is the double that integer, without a minus? -/
def isInteger (n : Nat) (x : Float) : Bool := match Exact.ofFloat x with
  | .finite false m e => m * 2 ^ e.toNat == n * 2 ^ (-e).toNat
  | _ => false

theorem magnitude_eq (h : m * 2 ^ e.toNat = n * 2 ^ (-e).toNat) : (m : ℚ) * 2 ^ e = n := by
  have hcast : (m : ℚ) * 2 ^ e.toNat = n * 2 ^ (-e).toNat := by exact_mod_cast h
  rw [← zpow_natCast, ← zpow_natCast] at hcast
  refine mul_right_cancel₀ (two_zpow_pos ((-e).toNat : ℤ)).ne' (Eq.trans ?_ hcast)
  rw [mul_assoc, ← two_zpow_add]
  congr 2
  omega

theorem isInteger_sound (h : isInteger n x = true) : IsInteger n x := by
  have hreads := ofFloat_eq x
  unfold isInteger at h
  split at h
  · next m e hreading =>
    have hvalue := magnitude_eq (beq_iff_eq.mp h)
    have hfinite := isFinite_of_reading hreading
    rw [hreading] at hreads
    refine ⟨hfinite, ?_, ?_⟩
    · rw [Number.value, hreading]
      exact hvalue
    · rw [signOf_eq (isNaN_of_isFinite hfinite)]
      cases hunpack : x.toModel.unpack with
      | infinity => rw [hunpack] at hreads; cases hreads
      | notANumber => rw [hunpack] at hreads; cases hreads
      | zero s =>
        rw [hunpack] at hreads
        cases s
        · cases hreads
        · rfl
      | finite s =>
        rw [hunpack] at hreads
        cases s
        · cases hreads
        · rfl
  · cases h

/-- The powers of ten that are looked up are exact. -/
theorem isInteger_power (hk : k < 23) : IsInteger (10 ^ k) (Float.exactlyRepresentablePowersOfTen[k]) := by
  have hall : ∀ k : Fin 23, isInteger (10 ^ k.val) Float.exactlyRepresentablePowersOfTen[k] = true := by decide
  exact isInteger_sound (hall ⟨k, hk⟩)

/-! ## Decimals -/

theorem lt_limit_of_lt {b : ℤ} (hb : b ≤ 1023) (h : q < 2 ^ b) : q < overflowLimit :=
  lt_overflowLimit (lt_two_zpow h hb)

theorem exponentBits_binary64 : Format.binary64.exponentBits = 11 := rfl

/-- An integer has digits enough before it is rounded. -/
theorem whole_nearest (hm : 0 < m) {hm' : 0 < m <<< 53} {hten : 0 < 10 ^ 0} : IsNearestDouble m (Float.ofModel (.pack
    (mul .binary64 (.finite .positive (m <<< 53) (-53) hm') (.finite .positive (10 ^ 0) 0 hten)))) := by
  have hvalue : ((m <<< 53 * 10 ^ 0 : Nat) : ℚ) * 2 ^ (-53 + 0 : ℤ) = m := by
    have hshift : (2 : ℚ) ^ 53 * 2 ^ (-53 : ℤ) = 1 := by norm_num
    rw [Nat.shiftLeft_eq, Int.add_zero, pow_zero, mul_one, Nat.cast_mul, Nat.cast_pow, Nat.cast_ofNat, mul_assoc,
      hshift, mul_one]
  have hplace : (-53 + 0 : ℤ) ≤ lastPlace (((m <<< 53 * 10 ^ 0 : Nat) : ℚ) * 2 ^ (-53 + 0 : ℤ)) := by
    rw [hvalue]
    refine le_lastPlace ?_
    have hone : (1 : ℚ) ≤ m := by exact_mod_cast hm
    rw [abs_of_nonneg (Nat.cast_nonneg m)]
    exact le_trans (by norm_num) hone
  have hnearest := roundWithAccuracy_nearest (holds_exact _)
    (Nat.cast_pos.mpr (Nat.mul_pos hm' hten)) hplace
  rwa [hvalue] at hnearest

/-- A decimal of so many places is nothing. -/
theorem small_of_places (hk : 2 ^ 11 + m.log2 < k) : (m : ℚ) / (10 ^ k : Nat) ≤ 2 ^ (-1075 : ℤ) := by
  have htwo : (2 : ℚ) ^ (k : ℤ) ≤ (10 ^ k : Nat) := by
    rw [zpow_natCast]
    exact_mod_cast Nat.pow_le_pow_left (by decide) k
  have hm : (m : ℚ) ≤ 2 ^ ((m.log2 + 1 : Nat) : ℤ) := by
    rw [zpow_natCast]
    exact_mod_cast (Nat.lt_log2_self (n := m)).le
  calc (m : ℚ) / (10 ^ k : Nat) ≤ 2 ^ ((m.log2 + 1 : Nat) : ℤ) / 2 ^ (k : ℤ) :=
        div_le_div₀ (two_zpow_pos _).le hm (two_zpow_pos _) htwo
    _ = 2 ^ (((m.log2 + 1 : Nat) : ℤ) - k) := (zpow_sub₀ two_ne_zero _ _).symm
    _ ≤ 2 ^ (-1075 : ℤ) := zpow_le_zpow_right₀ one_le_two (by omega)

theorem isNearestDouble_of_small (hq : 0 ≤ q) (hsmall : q ≤ 2 ^ (-1075 : ℤ)) : IsNearestDouble q 0.0 :=
  isNearestDouble_zero (isNearest_zero_of_small hq hsmall)
    (lt_limit_of_lt (b := 0) (by decide) (lt_two_zpow_of_le hsmall (by decide)))

/-- A short decimal is a quotient of doubles. -/
theorem short_nearest (hlt : m < 2 ^ 53) (hk : k < 23) : IsNearestDouble ((m : ℚ) / (10 ^ k : Nat))
    (m.toUInt64.toFloat / Float.exactlyRepresentablePowersOfTen[k]) := by
  have hten : 0 < 10 ^ k := Nat.pow_pos (by decide)
  obtain ⟨hfinite, hvalue, hsign⟩ := toFloat_whole hlt
  obtain ⟨hfinite', hvalue', hsign'⟩ := isInteger_power hk
  have hne := hvalue'.trans_ne (Nat.cast_ne_zero.mpr hten.ne')
  have hquotient : (m : ℚ) / (10 ^ k : Nat) < 2 ^ (53 : ℤ) := by
    refine (div_le_self (Nat.cast_nonneg m) (by exact_mod_cast hten)).trans_lt ?_
    exact_mod_cast hlt
  have hrounds := div_rounds hfinite hfinite' hne
  rw [hvalue, hvalue', abs_of_nonneg (div_nonneg (Nat.cast_nonneg m) (Nat.cast_nonneg _))] at hrounds
  exact Rounds.isNearestDouble (hrounds (lt_two_zpow hquotient (by decide))) (lt_limit_of_lt (by decide) hquotient)
    (signOf_div hfinite hfinite' hsign hsign' hne)

/-- A decimal with places. -/
theorem ofScientific_nearest (m k : Nat) :
    IsNearestDouble ((m : ℚ) / (10 ^ k : Nat)) (Float.ofScientific m true k) := by
  unfold Float.ofScientific
  split
  · next hshort => exact short_nearest hshort.1 (Nat.lt_succ_of_le hshort.2)
  · show IsNearestDouble _ (Float.ofModel (.pack (ofScientific .binary64 m (Int.negOfNat k))))
    rw [show Int.negOfNat k = -(k : Int) from Int.negOfNat_eq, ofScientific]
    split
    · next hzero =>
      rw [hzero, Nat.cast_zero, zero_div]
      exact isNearestDouble_zero isNearest_zero overflowLimit_pos
    · next hzero =>
      have hm := Nat.pos_of_ne_zero hzero
      rw [exponentBits_binary64, if_neg (by omega)]
      split
      · next hsmall =>
        refine isNearestDouble_of_small (div_nonneg (Nat.cast_nonneg m) (Nat.cast_nonneg _)) (small_of_places ?_)
        omega
      · rcases Nat.eq_zero_or_pos k with rfl | hk
        · rw [if_pos (by simp), pow_zero, Nat.cast_one, div_one]
          exact whole_nearest hm
        · rw [if_neg (by omega)]
          simp only [Int.neg_neg, Int.toNat_natCast]
          exact div_nearest hm (Nat.pow_pos (by decide))

theorem ofScientific_nearest_whole (m : Nat) : IsNearestDouble m (Float.ofScientific m false 0) := by
  unfold Float.ofScientific
  split
  · next hshort =>
    obtain ⟨hfinite, hvalue, hsign⟩ := toFloat_whole hshort.1
    obtain ⟨hfinite', hvalue', hsign'⟩ := isInteger_power (k := 0) (by decide)
    have hlt : (m : ℚ) < 2 ^ (53 : ℤ) := by exact_mod_cast hshort.1
    have hrounds := mul_rounds hfinite hfinite'
    rw [hvalue, hvalue', pow_zero, Nat.cast_one, mul_one, abs_of_nonneg (Nat.cast_nonneg m)] at hrounds
    exact Rounds.isNearestDouble (hrounds (lt_two_zpow hlt (by decide)))
      (lt_limit_of_lt (by decide) hlt) (signOf_mul hfinite hfinite' hsign hsign')
  · show IsNearestDouble _ (Float.ofModel (.pack (ofScientific .binary64 m 0)))
    rw [ofScientific]
    split
    · next hzero =>
      rw [hzero, Nat.cast_zero]
      exact isNearestDouble_zero isNearest_zero overflowLimit_pos
    · next hzero =>
      rw [exponentBits_binary64, if_neg (by decide), if_neg (by omega), if_pos (le_refl 0)]
      exact whole_nearest (Nat.pos_of_ne_zero hzero)

/-! ### The number of digits -/

theorem lt_pow_digitCount (hm : 0 < m) : m < 10 ^ digitCount m := by
  unfold digitCount
  rw [if_neg (by simpa using hm.ne')]
  exact (Nat.length_toDigits_le_iff (by decide) Nat.length_toDigits_pos).mp le_rfl

theorem pow_digitCount_le (hm : 0 < m) : 10 ^ (digitCount m - 1) ≤ m := by
  unfold digitCount
  rw [if_neg (by simpa using hm.ne')]
  rcases Nat.eq_zero_or_pos ((Nat.toDigits 10 m).length - 1) with hone | hmore
  · rw [hone]
    exact hm
  · have hpos := Nat.length_toDigits_pos (b := 10) (n := m)
    by_contra hlt
    have hle := (Nat.length_toDigits_le_iff (by decide) hmore).mpr (not_le.mp hlt)
    omega

/-- Powers of ten by powers of two. -/
theorem two_pow_le_ten_pow {a b c d : Nat} (h : 2 ^ a ≤ 10 ^ b) (n : Nat) (hc : c ≤ a * n) (hd : b * n ≤ d) :
    2 ^ c ≤ 10 ^ d :=
  calc 2 ^ c ≤ (2 ^ a) ^ n := Nat.pow_mul 2 a n ▸ Nat.pow_le_pow_right (by decide) hc
    _ ≤ (10 ^ b) ^ n := Nat.pow_le_pow_left h n
    _ ≤ 10 ^ d := Nat.pow_mul 10 b n ▸ Nat.pow_le_pow_right (by decide) hd

/-- From a certain number of digits on a decimal is infinite. -/
theorem overflowLimit_le_of_digits (hm : 0 < m) (hdigits : 310 + k < digitCount m) :
    overflowLimit ≤ (m : ℚ) / (10 ^ k : Nat) := by
  have htenq : (0 : ℚ) < (10 ^ k : Nat) := Nat.cast_pos.mpr (Nat.pow_pos (by decide))
  have htwo : 2 ^ 1024 * 10 ^ k ≤ m :=
    calc 2 ^ 1024 * 10 ^ k ≤ 10 ^ (digitCount m - 1 - k) * 10 ^ k := Nat.mul_le_mul_right _
          (two_pow_le_ten_pow (a := 205) (b := 62) (by norm_num) 5 (by decide) (by omega))
      _ = 10 ^ (digitCount m - 1) := by rw [← Nat.pow_add, Nat.sub_add_cancel (by omega)]
      _ ≤ m := pow_digitCount_le hm
  rw [le_div_iff₀ htenq]
  calc overflowLimit * (10 ^ k : Nat) ≤ 2 ^ (1024 : ℤ) * (10 ^ k : Nat) :=
        mul_le_mul_of_nonneg_right (sub_le_self _ (two_zpow_pos _).le) htenq.le
    _ ≤ m := by
      rw [show (1024 : ℤ) = (1024 : Nat) from rfl, zpow_natCast]
      exact_mod_cast htwo

/-- With so few of them it is nothing. -/
theorem small_of_digits (hm : 0 < m) (hdigits : digitCount m + 330 < k) :
    (m : ℚ) / (10 ^ k : Nat) ≤ 2 ^ (-1075 : ℤ) := by
  have htenq : (0 : ℚ) < (10 ^ k : Nat) := Nat.cast_pos.mpr (Nat.pow_pos (by decide))
  have htwo : m * 2 ^ 1075 ≤ 10 ^ k :=
    calc m * 2 ^ 1075 ≤ 10 ^ digitCount m * 10 ^ (k - digitCount m) := Nat.mul_le_mul (lt_pow_digitCount hm).le
          (two_pow_le_ten_pow (a := 33) (b := 10) (by norm_num) 33 (by decide) (by omega))
      _ = 10 ^ k := by rw [← Nat.pow_add, Nat.add_sub_cancel' (by omega)]
  rw [div_le_iff₀ htenq, zpow_neg, ← div_eq_inv_mul, le_div_iff₀ (two_zpow_pos _),
    show (1075 : ℤ) = (1075 : Nat) from rfl, zpow_natCast]
  exact_mod_cast htwo

/-- **A decimal is read as the nearest double.** -/
theorem ofDecimal_nearest (m k : Nat) : IsNearestDouble ((m : ℚ) / (10 ^ k : Nat)) (ofDecimal m (-k)) := by
  have hq : 0 ≤ (m : ℚ) / (10 ^ k : Nat) := div_nonneg (Nat.cast_nonneg _) (Nat.cast_nonneg _)
  unfold ofDecimal
  dsimp only
  split
  · next hzero =>
    rw [beq_iff_eq.mp hzero, Nat.cast_zero, zero_div]
    exact isNearestDouble_zero isNearest_zero overflowLimit_pos
  · next hzero =>
    have hm : 0 < m := Nat.pos_of_ne_zero (by simpa using hzero)
    split
    · have hlarge := overflowLimit_le_of_digits hm (k := k) (by omega)
      exact ⟨rfl, fun hlt => absurd hlt hlarge.not_gt, fun _ => rfl⟩
    · split
      · exact isNearestDouble_of_small hq (small_of_digits hm (by omega))
      · split
        · obtain rfl : k = 0 := by omega
          rw [pow_zero, Nat.cast_one, div_one]
          exact ofScientific_nearest_whole m
        · rw [Int.neg_neg, Int.toNat_natCast]
          exact ofScientific_nearest m k

end LiveTemplate.Number
