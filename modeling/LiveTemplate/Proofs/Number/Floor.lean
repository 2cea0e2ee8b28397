import LiveTemplate.Proofs.Number.Rounded
/-!
# Doubles as integers

The roundings of doubles to integers, and the clamped readings as machine integers, are those of their
values.  Nothing is rounded twice on the way: an integer that a double is rounded to has no more places than
its significand, so it is a double itself.
-/

set_option autoImplicit false

namespace LiveTemplate.Number

open Float.Model (Format UnpackedFloat)
open Float.Model.UnpackedFloat

variable {s : Sign} {m n k : Nat} {e : Int} {q : ℚ} {x : Float}

/-! ## Magnitudes -/

theorem fraction_value (m k : Nat) : (m : ℚ) * 2 ^ (-(k : Int)) = ((m : Int) : ℚ) / ((2 ^ k : Nat) : ℚ) := by
  rw [zpow_neg, zpow_natCast, div_eq_mul_inv]
  push_cast
  rfl

theorem floorMagnitude_eq (m : Nat) (e : Int) : (Exact.floorMagnitude m e : Int) = ⌊(m : ℚ) * 2 ^ e⌋ := by
  unfold Exact.floorMagnitude
  split
  · next hnonneg =>
    obtain ⟨k, rfl⟩ := Int.eq_ofNat_of_zero_le hnonneg
    rw [Int.toNat_natCast, Nat.shiftLeft_eq, zpow_natCast]
    exact_mod_cast (Int.floor_natCast (m * 2 ^ k)).symm
  · next hneg =>
    obtain ⟨k, rfl⟩ : ∃ k : Nat, e = -k := ⟨(-e).toNat, by omega⟩
    rw [Int.neg_neg, Int.toNat_natCast, Nat.shiftRight_eq_div_pow, fraction_value, Rat.floor_intCast_div_natCast]
    rfl

theorem ceilMagnitude_eq (m : Nat) (hk : 0 < k) :
    (Exact.ceilMagnitude m (-k) : Int) = ⌈(m : ℚ) * 2 ^ (-(k : Int))⌉ := by
  unfold Exact.ceilMagnitude
  rw [if_neg (by omega), Int.neg_neg, Int.toNat_natCast, Nat.shiftRight_eq_div_pow, fraction_value]
  show (((m + (2 ^ k - 1)) / 2 ^ k : Nat) : Int) = _
  generalize hden : 2 ^ k = den
  have hpos : 0 < den := hden ▸ Nat.two_pow_pos k
  have hdenq : (0 : ℚ) < den := Nat.cast_pos.mpr hpos
  have hsplit := Nat.div_add_mod (m + (den - 1)) den
  have hmod := Nat.mod_lt (m + (den - 1)) hpos
  generalize (m + (den - 1)) / den = n at hsplit
  refine (Int.ceil_eq_iff.mpr ⟨?_, ?_⟩).symm
  · have hlow : ((den * n : Nat) : ℚ) < (m + den : Nat) := Nat.cast_lt.mpr (by omega)
    push_cast at hlow ⊢
    rw [lt_div_iff₀ hdenq]
    linarith
  · have hhigh : (m : ℚ) ≤ (den * n : Nat) := Nat.cast_le.mpr (by omega)
    push_cast at hhigh ⊢
    rw [div_le_iff₀ hdenq]
    linarith

theorem roundMagnitude_eq (m : Nat) (hk : 0 < k) :
    (Exact.roundMagnitude m (-k) : Int) = ⌊(m : ℚ) * 2 ^ (-(k : Int)) + 1 / 2⌋ := by
  obtain ⟨j, rfl⟩ := Nat.exists_eq_succ_of_ne_zero hk.ne'
  have hhalf : ((m : Int) : ℚ) / ((2 ^ (j + 1) : Nat) : ℚ) + 1 / 2
      = ((m + 2 ^ j : Nat) : Int) / ((2 ^ (j + 1) : Nat) : ℚ) := by
    rw [pow_succ]
    push_cast
    field_simp
  unfold Exact.roundMagnitude
  rw [if_neg (by omega), Int.neg_neg, Int.toNat_natCast, Nat.shiftRight_eq_div_pow, fraction_value, hhalf,
    Rat.floor_intCast_div_natCast]
  rfl

/-! ## Integers as doubles -/

/-- The fields of a double side by side in a word. -/
theorem packComponents_word (s : Sign) (exponent : BitVec 11) (fraction : BitVec 52) :
    UInt64.ofBitVec (packComponents .binary64 s exponent fraction)
      = (if s == Sign.negative then (0x8000000000000000 : UInt64) else 0) ||| (UInt64.ofNat exponent.toNat <<< 52)
        ||| UInt64.ofNat fraction.toNat := by
  have hexponent := exponent.isLt
  have hfraction := fraction.isLt
  rw [← UInt64.toNat_inj]
  show (s.toBitVec ++ exponent ++ fraction).toNat = _
  rw [BitVec.toNat_append, BitVec.toNat_append]
  simp only [UInt64.toNat_or, UInt64.toNat_shiftLeft, UInt64.toNat_ofNat']
  rw [Nat.mod_eq_of_lt (show exponent.toNat < 2 ^ 64 by omega),
    Nat.mod_eq_of_lt (show fraction.toNat < 2 ^ 64 by omega)]
  have hshift : exponent.toNat <<< (UInt64.toNat 52 % 64) % 2 ^ 64 = exponent.toNat <<< 52 := by
    refine Nat.mod_eq_of_lt ?_
    show exponent.toNat <<< 52 < 2 ^ 64
    rw [Nat.shiftLeft_eq]
    omega
  rw [hshift, Nat.shiftLeft_or_distrib, ← Nat.shiftLeft_add]
  cases s <;> rfl

theorem pack_normal {hm : 0 < m} (h : IsNormal m e) : pack .binary64 (.finite s m e hm)
    = packComponents .binary64 s (BitVec.ofNat 11 (e + 1075).toNat) (BitVec.ofNat 52 m) := by
  have hleast := h.least
  have hmost := h.most
  rw [pack]
  have hbiased : (e + (Format.binary64.exponentBias : Int)
      + (Format.binary64.mantissaBitsWithoutImplicit : Int)).toNat = (e + 1075).toNat := by
    show (e + (1023 : Nat) + (52 : Nat)).toNat = _
    congr 1
    omega
  simp only [hbiased]
  refine (if_neg (show ¬2 ^ 11 ≤ (e + 1075).toNat + 1 by omega)).trans (if_pos ?_)
  rw [h.log2]
  rfl

/-- An integer of at most fifty-three places is a normal double with its significand moved to the left. -/
theorem exists_isNormal (hn : 0 < n) (hlt : n < 2 ^ 53) : ∃ k : Nat, IsNormal (n * 2 ^ k) (-k) ∧ n.log2 + k = 52 := by
  have hlog : n.log2 ≤ 52 := Nat.le_of_lt_succ ((Nat.log2_lt hn.ne').mpr hlt)
  obtain ⟨k, hk⟩ := Nat.exists_eq_add_of_le hlog
  have hpos : 0 < n * 2 ^ k := Nat.mul_pos hn (Nat.two_pow_pos k)
  have hlog : (n * 2 ^ k).log2 = 52 := by rw [log2_mul_two_pow hn, ← hk]
  obtain ⟨hlow, hhigh⟩ := (Nat.log2_eq_iff hpos.ne').mp hlog
  exact ⟨k, ⟨hlow, hhigh, by omega, by omega⟩, hk.symm⟩

theorem toFloat_normal (h : IsNormal (n * 2 ^ k) (-k)) (hk : n.log2 + k = 52) (s : Sign) :
    Exact.toFloat (s == Sign.negative) n 0 = Float.ofModel (.pack (.finite s (n * 2 ^ k) (-k) h.pos)) := by
  have hn : 0 < n := Nat.pos_of_mul_pos_right h.pos
  rw [← Float.ofBits_toBits (Float.ofModel _)]
  have hbits : (Float.ofModel (.pack (.finite s (n * 2 ^ k) (-k) h.pos))).toBits
      = UInt64.ofBitVec (pack .binary64 (.finite s (n * 2 ^ k) (-k) h.pos)) := rfl
  have hunit : max ((n.log2 : Int) + 0 - 52) (-1074) = -k := by omega
  unfold Exact.toFloat
  rw [if_neg (by simpa using hn.ne'), hbits, pack_normal h, packComponents_word]
  simp only [hunit, show (0 : Int) - -(k : Int) = k by omega]
  rw [if_pos (show (k : Int) ≥ 0 by omega), if_neg (show ¬(n.log2 : Int) + 0 < -1022 by omega), Int.toNat_natCast,
    Nat.shiftLeft_eq, BitVec.toNat_ofNat, BitVec.toNat_ofNat,
    show ((n.log2 : Int) + 0 + 1023).toNat = (-(k : Int) + 1075).toNat by omega,
    Nat.mod_eq_of_lt (show (-(k : Int) + 1075).toNat < 2 ^ 11 by omega)]
  rfl

theorem toFloat_denotes (hlt : n < 2 ^ 53) (s : Sign) :
    Denotes (Exact.toFloat (s == Sign.negative) n 0) (signed s n) := by
  rcases Nat.eq_zero_or_pos n with rfl | hn
  · refine ⟨by cases s <;> rfl, ?_⟩
    rw [value_zero (s := s) (by cases s <;> rfl), Nat.cast_zero]
    cases s
    · exact neg_zero.symm
    · rfl
  · obtain ⟨k, hnormal, hk⟩ := exists_isNormal hn hlt
    rw [toFloat_normal hnormal hk]
    have hunpack : (Float.ofModel (.pack (.finite s (n * 2 ^ k) (-k) hnormal.pos))).toModel.unpack
        = .finite s (n * 2 ^ k) (-k) hnormal.pos := unpack_pack_normal hnormal hnormal.pos
    refine ⟨?_, ?_⟩
    · show (Float.ofModel _).toModel.unpack.isFinite = true
      rw [hunpack]
      rfl
    · rw [value_finite hunpack, Nat.cast_mul, mul_assoc, Nat.cast_pow, Nat.cast_ofNat, zpow_neg, zpow_natCast,
        mul_inv_cancel₀ (pow_ne_zero k two_ne_zero), mul_one]

/-! ## Roundings -/

/-- The parts of a finite double, be it a zero or not. -/
theorem reading_of_isFinite (hx : x.isFinite = true) : ∃ (s : Sign) (m : Nat) (e : Int),
    Exact.ofFloat x = .finite (s == Sign.negative) m e ∧ value x = signed s (m * 2 ^ e) ∧ m < 2 ^ 53 := by
  rcases finite_cases hx with ⟨s, hx⟩ | ⟨s, m, e, hm, hx⟩
  · refine ⟨s, 0, -1074, by rw [ofFloat_eq, hx], ?_, by decide⟩
    rw [value_zero hx, Nat.cast_zero, zero_mul]
    cases s
    · exact neg_zero.symm
    · rfl
  · exact ⟨s, m, e, by rw [ofFloat_eq, hx], value_finite hx, (isDouble_of_unpack hx).lt⟩

/-- Only a finite double has parts. -/
theorem isFinite_of_reading {negative : Bool} (h : Exact.ofFloat x = .finite negative m e) : x.isFinite = true := by
  show x.toModel.unpack.isFinite = true
  cases hunpack : x.toModel.unpack with
  | infinity => rw [ofFloat_eq, hunpack] at h; cases h
  | notANumber => rw [ofFloat_eq, hunpack] at h; cases h
  | zero => rfl
  | finite => rfl

theorem reading_of_isInf (hx : x.isInf = true) : ∃ s : Sign, Exact.ofFloat x = .infinite (s == .negative) := by
  change x.toModel.unpack.isInf = true at hx
  cases hunpack : x.toModel.unpack with
  | infinity s => exact ⟨s, by rw [ofFloat_eq, hunpack]⟩
  | _ => rw [hunpack] at hx; cases hx

theorem reading_of_isNaN (hx : x.isNaN = true) : Exact.ofFloat x = .nan := by
  change x.toModel.unpack.isNaN = true at hx
  cases hunpack : x.toModel.unpack with
  | notANumber => rw [ofFloat_eq, hunpack]
  | _ => rw [hunpack] at hx; cases hx

/-- A rule for magnitudes rounds doubles as it does numbers. -/
theorem roundWith_denotes (rule : Bool → Nat → Int → Nat) (round : ℚ → ℤ) (hint : ∀ n : ℤ, round n = n)
    (hrule : ∀ (s : Sign) (m k : Nat), 0 < k → m < 2 ^ 53 → rule (s == Sign.negative) m (-k) < 2 ^ 53 ∧
      signed s (rule (s == Sign.negative) m (-k)) = round (signed s (m * 2 ^ (-(k : Int)))))
    (hx : x.isFinite = true) : Denotes (Exact.roundWith rule x) (round (value x)) := by
  obtain ⟨s, m, e, hreading, hvalue, hlt⟩ := reading_of_isFinite hx
  unfold Exact.roundWith
  simp only [hreading]
  split
  · next hnonneg =>
    obtain ⟨k, rfl⟩ := Int.eq_ofNat_of_zero_le hnonneg
    have hinteger : value x = (s.apply (m * 2 ^ k : Nat) : Int) := by
      rw [hvalue, apply_value, zpow_natCast]
      push_cast
      rfl
    exact ⟨hx, by rw [hinteger, hint]⟩
  · next hneg =>
    obtain ⟨k, rfl⟩ : ∃ k : Nat, e = -k := ⟨(-e).toNat, by omega⟩
    obtain ⟨hsmall, hround⟩ := hrule s m k (by omega) hlt
    rw [hvalue, ← hround]
    exact toFloat_denotes hsmall s

/-- A significand that is moved to the right is at most half. -/
theorem fraction_le (hlt : m < 2 ^ 53) (hk : 0 < k) : (m : ℚ) * 2 ^ (-(k : Int)) ≤ 2 ^ 52 := by
  have hm : (m : ℚ) ≤ 2 ^ 53 := by exact_mod_cast hlt.le
  have hhalf : (2 : ℚ) ^ (-(k : Int)) ≤ 2 ^ (-1 : Int) := zpow_le_zpow_right₀ one_le_two (by omega)
  calc (m : ℚ) * 2 ^ (-(k : Int)) ≤ 2 ^ 53 * 2 ^ (-1 : Int) := mul_le_mul hm hhalf (two_zpow_pos _).le (by norm_num)
    _ = 2 ^ 52 := by norm_num

theorem fraction_nonneg (m : Nat) (e : Int) : (0 : ℚ) ≤ m * 2 ^ e :=
  mul_nonneg (Nat.cast_nonneg m) (two_zpow_pos e).le

/-- A double is rounded down to the floor of its value. -/
theorem floor_denotes (hx : x.isFinite = true) : Denotes (floor x) ⌊value x⌋ := by
  refine roundWith_denotes _ _ Int.floor_intCast (fun s m k hk hlt => ?_) hx
  have hle := fraction_le hlt hk
  cases s
  · have hceil := ceilMagnitude_eq m hk
    have hsmall : ⌈(m : ℚ) * 2 ^ (-(k : Int))⌉ ≤ 2 ^ 52 := Int.ceil_le.mpr (by exact_mod_cast hle)
    refine ⟨show Exact.ceilMagnitude m (-k) < 2 ^ 53 by omega, ?_⟩
    show -((Exact.ceilMagnitude m (-k) : Nat) : ℚ) = (⌊-((m : ℚ) * 2 ^ (-(k : Int)))⌋ : ℤ)
    rw [Int.floor_neg, ← hceil, Int.cast_neg, Int.cast_natCast]
  · have hfloor := floorMagnitude_eq m (-k)
    have hsmall : ⌊(m : ℚ) * 2 ^ (-(k : Int))⌋ < 2 ^ 52 + 1 := Int.floor_lt.mpr (by push_cast; linarith)
    refine ⟨show Exact.floorMagnitude m (-k) < 2 ^ 53 by omega, ?_⟩
    show ((Exact.floorMagnitude m (-k) : Nat) : ℚ) = (⌊(m : ℚ) * 2 ^ (-(k : Int))⌋ : ℤ)
    rw [← hfloor, Int.cast_natCast]

/-- The integer nearest to a number, and from the middle the one further from zero. -/
def roundAway (q : ℚ) : ℤ := if q < 0 then ⌈q - 1 / 2⌉ else ⌊q + 1 / 2⌋

theorem roundAway_signed (hq : 0 ≤ q) (s : Sign) : roundAway (signed s q) = s.apply ⌊q + 1 / 2⌋ := by
  cases s
  · show (if -q < 0 then ⌈-q - 1 / 2⌉ else ⌊-q + 1 / 2⌋) = -⌊q + 1 / 2⌋
    split
    · rw [← Int.ceil_neg]
      congr 1
      ring
    · next hneg =>
      obtain rfl : q = 0 := by linarith
      norm_num
  · exact if_neg hq.not_gt

theorem roundAway_intCast (n : ℤ) : roundAway n = n := by
  have hhalf (n : ℤ) : ⌊(n : ℚ) + 1 / 2⌋ = n := by
    rw [Int.floor_intCast_add]
    norm_num
  unfold roundAway
  split
  · rw [show (n : ℚ) - 1 / 2 = -(((-n : ℤ) : ℚ) + 1 / 2) by push_cast; ring, Int.ceil_neg, hhalf, neg_neg]
  · exact hhalf n

/-- A double is rounded to the nearest integer, halves away from zero, as its value is. -/
theorem round_denotes (hx : x.isFinite = true) : Denotes (round x) (roundAway (value x)) := by
  refine roundWith_denotes _ _ roundAway_intCast (fun s m k hk hlt => ?_) hx
  have hle := fraction_le hlt hk
  have hround := roundMagnitude_eq m hk
  have hsmall : ⌊(m : ℚ) * 2 ^ (-(k : Int)) + 1 / 2⌋ < 2 ^ 52 + 1 := Int.floor_lt.mpr (by push_cast; linarith)
  refine ⟨show Exact.roundMagnitude m (-k) < 2 ^ 53 by omega, ?_⟩
  rw [roundAway_signed (fraction_nonneg m _), ← hround, apply_value]

/-! ## Machine integers -/

/-- The integer part of a number. -/
def truncate (q : ℚ) : ℤ := if q < 0 then ⌈q⌉ else ⌊q⌋

theorem truncate_signed (hq : 0 ≤ q) (s : Sign) : truncate (signed s q) = s.apply ⌊q⌋ := by
  cases s
  · show (if -q < 0 then ⌈-q⌉ else ⌊-q⌋) = -⌊q⌋
    split
    · exact Int.ceil_neg
    · next hneg =>
      obtain rfl : q = 0 := by linarith
      norm_num
  · exact if_neg hq.not_gt

theorem truncate_intCast (n : ℤ) : truncate n = n := by
  unfold truncate
  split
  · exact Int.ceil_intCast n
  · exact Int.floor_intCast n

/-- A double is read as a machine integer by its integer part, clamped. -/
theorem clampInt_eq (hx : x.isFinite = true) (low high : Int) :
    clampInt low high x = max low (min high (truncate (value x))) := by
  obtain ⟨s, m, e, hreading, hvalue, -⟩ := reading_of_isFinite hx
  unfold clampInt
  simp only [hreading, hvalue, truncate_signed (fraction_nonneg m e), floorMagnitude_eq]
  cases s <;> rfl

end LiveTemplate.Number
