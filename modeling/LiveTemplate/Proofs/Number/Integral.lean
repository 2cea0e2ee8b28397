import LiveTemplate.Proofs.Number.Whole
/-!
# Integral doubles

A double that is integral and not too large is read as an integer, and this integer is made a double again.
It is the same double, but for the negative zero, which is equal to the other one.

An integer below `2 ^ 53` is a normal double with its digits moved to the left, as far as fifty-three bits
reach (`IsNormal`).  Rounding does nothing to it, packing keeps it, and the one by which it is multiplied on
the way only moves it to and fro.  So it is enough to know which significands and exponents the bits of an
integral double are read as.
-/

set_option autoImplicit false

namespace LiveTemplate.Number

open Float.Model (Format UnpackedFloat totalExponent)
open Float.Model.UnpackedFloat

/-! ## Normal doubles -/

variable {s : Sign} {m n k : Nat} {e : Int}

/-- The significand has fifty-three bits, and the exponent is one of a double. -/
structure IsNormal (m : Nat) (e : Int) : Prop where
  low : 2 ^ 52 ≤ m
  high : m < 2 ^ 53
  least : -1074 ≤ e
  most : e ≤ 971

theorem IsNormal.pos (h : IsNormal m e) : 0 < m := Nat.lt_of_lt_of_le (by decide) h.low

theorem IsNormal.log2 (h : IsNormal m e) : m.log2 = 52 :=
  (Nat.log2_eq_iff h.pos.ne').mpr ⟨h.low, h.high⟩

theorem exponentBias_binary64 : Format.binary64.exponentBias = 1023 := rfl

theorem mantissaBits_binary64 : Format.binary64.mantissaBits = 53 := rfl

theorem minExponent_binary64 : Format.binary64.minExponent = -1074 := rfl

theorem toNat_implicit (v : BitVec 52) : (1#1 ++ v).toNat = 2 ^ 52 + v.toNat := by
  rw [BitVec.toNat_append, ← Nat.shiftLeft_add_eq_or_of_lt v.isLt]
  rfl

theorem unpack_pack_normal (h : IsNormal m e) (hm : 0 < m) :
    (Float.Model.pack (.finite s m e hm)).unpack = .finite s m e hm := by
  obtain ⟨hlow, hhigh, hleast, hmost⟩ := h
  have hlog : m.log2 = 52 := (Nat.log2_eq_iff hm.ne').mpr ⟨hlow, hhigh⟩
  show unpack _ (pack _ _) = _
  rw [pack]
  simp only [hlog, exponentBias_binary64, mantissaBits_binary64]
  obtain ⟨biased, hbiased⟩ : ∃ biased : Nat, (biased : Int) = e + 1075 := ⟨(e + 1075).toNat, by omega⟩
  rw [show (e + ((1023 : Nat) : Int) + ((52 : Nat) : Int)).toNat = biased by omega, if_neg (by omega), if_pos trivial]
  have hexponent : (BitVec.ofNat 11 biased).toNat = biased := by
    rw [BitVec.toNat_ofNat, Nat.mod_eq_of_lt (by omega)]
  have hmantissa : (1#1 ++ BitVec.ofNat 52 m).toNat = m := by
    rw [toNat_implicit, BitVec.toNat_ofNat]
    omega
  have hfinite : BitVec.ofNat 11 biased ≠ -1#11 := by
    intro heq
    have hall := congrArg BitVec.toNat heq
    rw [hexponent, show (-1#11).toNat = 2047 from rfl] at hall
    omega
  have hnormal : BitVec.ofNat 11 biased ≠ 0#11 := by
    intro heq
    have hnone := congrArg BitVec.toNat heq
    rw [hexponent, show (0#11).toNat = 0 from rfl] at hnone
    omega
  rw [unpack]
  simp only [unpackMantissa_packComponents, unpackExponent_packComponents, unpackSign_packComponents,
    Sign.ofBitVec_toBitVec, exponentBias_binary64, if_neg hfinite, if_neg hnormal, hmantissa, hexponent]
  congr 1
  omega

theorem log2_mul_two_pow (hn : 0 < n) (k : Nat) : (n * 2 ^ k).log2 = n.log2 + k := by
  refine (Nat.log2_eq_iff (Nat.mul_pos hn (Nat.two_pow_pos k)).ne').mpr ⟨?_, ?_⟩
  · rw [Nat.pow_add]
    exact Nat.mul_le_mul_right _ (Nat.log2_self_le hn.ne')
  · rw [Nat.add_right_comm, Nat.pow_add]
    exact Nat.mul_lt_mul_of_pos_right Nat.lt_log2_self (Nat.two_pow_pos k)

/-- Moving a significand to the right loses nothing if it was moved to the left before. -/
theorem shift_exact (m k : Nat) : ExtendedMantissa.ofMantissaAndAccuracy (m * 2 ^ k) .exact >>> k
    = ExtendedMantissa.ofMantissaAndAccuracy m .exact := by
  show k.repeat ExtendedMantissa.shiftRightOne _ = _
  induction k generalizing m with
  | zero => rw [Nat.pow_zero, Nat.mul_one]; rfl
  | succ k ih =>
    rw [Nat.repeat, Nat.pow_succ', ← Nat.mul_assoc, ih]
    simp [ExtendedMantissa.shiftRightOne, ExtendedMantissa.ofMantissaAndAccuracy]

theorem shiftToTargetExponent_normal (h : IsNormal m e) (k : Nat) :
    shiftToTargetExponent .binary64 (m * 2 ^ k) (e - k) .exact
      = (ExtendedMantissa.ofMantissaAndAccuracy m .exact, e) := by
  have hlog : (m * 2 ^ k).log2 = 52 + k := by rw [log2_mul_two_pow h.pos, h.log2]
  have htarget : Format.binary64.targetExponent (totalExponent (m * 2 ^ k) (e - k)) = e := by
    have hleast := h.least
    unfold Format.targetExponent totalExponent
    rw [hlog, mantissaBits_binary64, minExponent_binary64]
    omega
  unfold shiftToTargetExponent shiftToExponent
  simp only [htarget, show (e - (e - (k : Int))).toNat = k by omega, shift_exact]
  exact Prod.ext rfl (by show e - k + k = e; omega)

/-- A number that a double can be is not rounded. -/
theorem roundWithAccuracy_normal (h : IsNormal m e) (hm : 0 < m) (k : Nat) :
    roundWithAccuracy .binary64 s (m * 2 ^ k) (e - k) .exact = .finite s m e hm := by
  have hagain := shiftToTargetExponent_normal h 0
  rw [Nat.pow_zero, Nat.mul_one, Int.natCast_zero, Int.sub_zero] at hagain
  have hexact : (ExtendedMantissa.ofMantissaAndAccuracy m .exact).roundedMantissa = m := rfl
  unfold roundWithAccuracy
  simp only [shiftToTargetExponent_normal h k, hexact, hagain]
  exact dif_neg hm.ne'

/-! ## Whole numbers -/

/-- A whole number of at most fifty-three bits is a normal double with its significand moved to the left. -/
theorem normalize_whole (h : IsNormal (n * 2 ^ k) (-k)) : UnpackedFloat.normalize .binary64 n 0 .positive
    = .finite .positive (n * 2 ^ k) (-k) h.pos := by
  have hn : 0 < n := Nat.pos_of_mul_pos_right h.pos
  have hlog := log2_mul_two_pow hn k
  rw [h.log2] at hlog
  have htarget : Format.binary64.targetExponent (totalExponent n 0) = -k := by
    have hleast := h.least
    unfold Format.targetExponent totalExponent
    rw [mantissaBits_binary64, minExponent_binary64]
    omega
  have hround := roundWithAccuracy_normal (s := .positive) h h.pos 0
  rw [Nat.pow_zero, Nat.mul_one, Int.natCast_zero, Int.sub_zero] at hround
  unfold UnpackedFloat.normalize
  rw [show compare (n : Int) 0 = .gt from Int.compare_eq_gt.mpr (by omega)]
  show UnpackedFloat.round .binary64 .positive n 0 = _
  unfold UnpackedFloat.round decreaseExponent
  simp only [htarget, Nat.shiftLeft_eq, show (0 - -(k : Int)).toNat = k by omega, show 0 - (k : Int) = -k by omega]
  exact hround

/-- The double of a whole number. -/
theorem ofNat_whole (h : IsNormal (n * 2 ^ k) (-k)) :
    Float.ofNat n = Float.ofModel (.pack (.finite .positive (n * 2 ^ k) (-k) h.pos)) := by
  have hlt : n < 2 ^ 53 := Nat.lt_of_le_of_lt (Nat.le_mul_of_pos_right n (Nat.two_pow_pos k)) h.high
  have hword : n.toUInt64.toNat = n := by
    show n % 2 ^ 64 = n
    omega
  show Float.ofScientific n false 0 = _
  unfold Float.ofScientific
  rw [dif_pos ⟨hlt, by decide⟩]
  show Float.ofModel (.pack (mul _
    (Float.Model.pack (UnpackedFloat.normalize .binary64 (n.toUInt64.toNat : Int) 0 .positive)).unpack
    (Float.ofBits 0x3FF0000000000000).toModel.unpack)) = _
  rw [hword, normalize_whole h, unpack_pack_normal h, unpack_one]
  have hone := roundWithAccuracy_normal (s := .positive) h h.pos 52
  exact congrArg (fun u => Float.ofModel (.pack u)) hone

theorem ofInt_whole (h : IsNormal (n * 2 ^ k) (-k)) :
    ofInt (s.apply n) = Float.ofModel (.pack (.finite s (n * 2 ^ k) (-k) h.pos)) := by
  have hn : 0 < n := Nat.pos_of_mul_pos_right h.pos
  cases s with
  | positive => exact ofNat_whole h
  | negative =>
    obtain ⟨before, rfl⟩ := Nat.exists_eq_succ_of_ne_zero hn.ne'
    show -Float.ofNat (before + 1) = _
    rw [ofNat_whole h]
    show Float.ofModel (.pack (neg (Float.Model.pack _).unpack)) = _
    rw [unpack_pack_normal h]
    rfl

/-! ## Readings -/

/-- A finite double is a number. -/
theorem isNaN_of_isFinite {x : Float} (h : x.isFinite = true) : x.isNaN = false := by
  change x.toModel.unpack.isFinite = true at h
  show x.toModel.unpack.isNaN = false
  cases hx : x.toModel.unpack with
  | notANumber => rw [hx] at h; cases h
  | _ => rfl

theorem ofModel_unpack (x : Float) : Float.ofModel (.pack x.toModel.unpack) = x := Float.ofBits_toBits x

/-! ### The fields of a double -/

section Fields

variable (bits : UInt64)

/-- The sign of a double. -/
def signField : Sign := Sign.ofBitVec (@unpackSign Format.binary64 bits.toBitVec)

/-- The exponent as it is written, with its bias. -/
def exponentField : Nat := (@unpackExponent Format.binary64 bits.toBitVec).toNat

/-- The significand as it is written, without its first bit. -/
def fractionField : Nat := (@unpackMantissa Format.binary64 bits.toBitVec).toNat

theorem exponentField_lt : exponentField bits < 2048 := BitVec.isLt _

theorem fractionField_lt : fractionField bits < 2 ^ 52 := BitVec.isLt _

theorem negative_eq : (bits >>> 63 == 1) = (signField bits == Sign.negative) := by
  have hshift : (bits >>> 63).toNat = bits.toNat >>> 63 := by simp
  have hsign : (@unpackSign Format.binary64 bits.toBitVec).toNat = bits.toNat >>> 63 := by
    rw [unpackSign_def, BitVec.extractLsb'_toNat]
    have hlt := bits.toNat_lt
    show bits.toNat >>> 63 % 2 = _
    rw [Nat.shiftRight_eq_div_pow]
    omega
  have hnone : @unpackSign Format.binary64 bits.toBitVec = 0#1 ↔ (bits >>> 63).toNat = 0 := by
    rw [← BitVec.toNat_inj, hsign, hshift]
    rfl
  have hone : (bits >>> 63 == 1) = true ↔ (bits >>> 63).toNat = 1 := by
    rw [beq_iff_eq, ← UInt64.toNat_inj]
    rfl
  have hlt : (bits >>> 63).toNat < 2 := by
    rw [hshift, ← hsign]
    exact BitVec.isLt _
  rw [Bool.eq_iff_iff, hone]
  unfold signField Sign.ofBitVec
  split
  · next hzero => simp [hnone.mp hzero]
  · next hzero =>
    have hpos := mt hnone.mpr hzero
    simp
    omega

theorem exponent_eq : ((bits >>> 52) &&& 0x7FF).toNat = exponentField bits := by
  have hfield : exponentField bits = bits.toNat >>> 52 % 2 ^ 11 := by
    rw [exponentField, unpackExponent_def, BitVec.extractLsb'_toNat]
    rfl
  have hword : ((bits >>> 52) &&& 0x7FF).toNat = bits.toNat >>> 52 &&& (2 ^ 11 - 1) := by simp
  rw [hfield, hword, Nat.and_two_pow_sub_one_eq_mod]

theorem fraction_eq : (bits &&& 0xFFFFFFFFFFFFF).toNat = fractionField bits := by
  have hfield : fractionField bits = bits.toNat % 2 ^ 52 := by
    rw [fractionField, unpackMantissa_def, BitVec.extractLsb'_toNat]
    rfl
  have hword : (bits &&& 0xFFFFFFFFFFFFF).toNat = bits.toNat &&& (2 ^ 52 - 1) := by simp
  rw [hfield, hword, Nat.and_two_pow_sub_one_eq_mod]

/-- What a double is read as, by its fields. -/
inductive ReadsAs : UnpackedFloat → Prop
  | infinity : exponentField bits = 2047 → fractionField bits = 0 → ReadsAs (.infinity (signField bits))
  | notANumber : exponentField bits = 2047 → fractionField bits ≠ 0 → ReadsAs .notANumber
  | zero : exponentField bits = 0 → fractionField bits = 0 → ReadsAs (.zero (signField bits))
  | subnormal (hm : 0 < fractionField bits) : exponentField bits = 0 →
    ReadsAs (.finite (signField bits) (fractionField bits) (-1074) hm)
  | normal (hm : 0 < 2 ^ 52 + fractionField bits) : exponentField bits ≠ 0 → exponentField bits ≠ 2047 →
    ReadsAs (.finite (signField bits) (2 ^ 52 + fractionField bits) (exponentField bits - 1075) hm)

theorem readsAs_unpack : ReadsAs bits (unpack Format.binary64 bits.toBitVec) := by
  have hall : exponentField bits = 2047 ↔ @unpackExponent Format.binary64 bits.toBitVec = -1#11 := by
    rw [← BitVec.toNat_inj]
    rfl
  have hnone : exponentField bits = 0 ↔ @unpackExponent Format.binary64 bits.toBitVec = 0#11 := by
    rw [← BitVec.toNat_inj]
    rfl
  have hempty : fractionField bits = 0 ↔ @unpackMantissa Format.binary64 bits.toBitVec = 0#52 := by
    rw [← BitVec.toNat_inj]
    rfl
  fun_cases unpack Format.binary64 bits.toBitVec with
  | case1 mantissa exponent sign s hexponent hmantissa => exact .infinity (hall.mpr hexponent) (hempty.mpr hmantissa)
  | case2 mantissa exponent hexponent hmantissa => exact .notANumber (hall.mpr hexponent) (mt hempty.mp hmantissa)
  | case3 mantissa exponent sign s hfinite hexponent hmantissa =>
    exact .zero (hnone.mpr hexponent) (hempty.mpr hmantissa)
  | case4 mantissa exponent e sign s hfinite hexponent hmantissa =>
    have hleast : e + 1 = -1074 := by
      show (exponentField bits : Int) - 1075 + 1 = _
      rw [hnone.mpr hexponent]
      rfl
    simp only [hleast]
    exact .subnormal _ (hnone.mpr hexponent)
  | case5 mantissa exponent e sign s hfinite hexponent =>
    have hsum : (1#1 ++ mantissa).toNat = 2 ^ 52 + fractionField bits := toNat_implicit mantissa
    simp only [hsum]
    exact .normal _ (mt hnone.mp hexponent) (mt hall.mp hfinite)

end Fields

/-- The exact reading of a double is what its model unpacks to. -/
theorem ofFloat_eq (x : Float) : Exact.ofFloat x = match x.toModel.unpack with
    | .infinity s => .infinite (s == Sign.negative)
    | .notANumber => .nan
    | .zero s => .finite (s == Sign.negative) 0 (-1074)
    | .finite s m e _ => .finite (s == Sign.negative) m e := by
  have hreads : ReadsAs x.toBits x.toModel.unpack := readsAs_unpack x.toBits
  unfold Exact.ofFloat
  simp only [negative_eq, exponent_eq, fraction_eq]
  generalize x.toModel.unpack = u at hreads
  cases hreads with
  | infinity hexponent hfraction => simp [hexponent, hfraction]
  | notANumber hexponent hfraction => simp [hexponent, hfraction]
  | zero hexponent hfraction => simp [hexponent, hfraction]
  | subnormal hm hexponent => simp [hexponent]
  | normal hm hnone hall => simp [hnone, hall, pow2]

/-- A finite double is normal, or its significand is shorter and its exponent the least one. -/
theorem isNormal_of_unpack {x : Float} {hm : 0 < m} (h : x.toModel.unpack = .finite s m e hm) :
    IsNormal m e ∨ m < 2 ^ 52 ∧ e = -1074 := by
  have hreads : ReadsAs x.toBits x.toModel.unpack := readsAs_unpack x.toBits
  have hexponent := exponentField_lt x.toBits
  have hfraction := fractionField_lt x.toBits
  rw [h] at hreads
  cases hreads with
  | subnormal => exact .inr ⟨hfraction, rfl⟩
  | normal _ hnone hall =>
    left
    constructor <;> omega

/-! ## Integral doubles -/

theorem unpack_limit : (9.0e15 : Float).toModel.unpack = .finite .positive 9000000000000000 0 (by decide) := rfl

variable {x : Float}

/-- A small normal double has no exponent above zero. -/
theorem nonpos_of_small {hm : 0 < m} (hx : x.toModel.unpack = .finite s m e hm) (h : IsNormal m e)
    (hsmall : x.abs < 9.0e15) : e ≤ 0 := by
  have hlt : UnpackedFloat.lt (Float.Model.pack x.toModel.unpack.abs).unpack (9.0e15 : Float).toModel.unpack = true :=
    of_decide_eq_true hsmall
  rw [hx, show UnpackedFloat.abs (.finite s m e hm) = .finite .positive m e hm from rfl,
    unpack_pack_normal h, unpack_limit] at hlt
  change (some ((compare e 0).then (compare m 9000000000000000)) == some Ordering.lt) = true at hlt
  by_contra hpos
  rw [Int.compare_eq_gt.mpr (by omega)] at hlt
  cases hlt

/-- An integral double that is small is a zero, or a whole number with its significand moved to the left. -/
theorem integral_cases (hintegral : isIntegral x = true) (hsmall : x.abs < 9.0e15) :
    (∃ s, x.toModel.unpack = .zero s) ∨ ∃ (s : Sign) (n k : Nat) (h : IsNormal (n * 2 ^ k) (-k)),
      x.toModel.unpack = .finite s (n * 2 ^ k) (-k) h.pos := by
  unfold isIntegral at hintegral
  rw [ofFloat_eq] at hintegral
  cases hx : x.toModel.unpack with
  | infinity => rw [hx] at hintegral; cases hintegral
  | notANumber => rw [hx] at hintegral; cases hintegral
  | zero s => exact .inl ⟨s, rfl⟩
  | finite s m e hm =>
    rw [hx] at hintegral
    simp only [Bool.or_eq_true, decide_eq_true_eq, beq_iff_eq] at hintegral
    rcases isNormal_of_unpack hx with hnormal | ⟨hshort, hleast⟩
    · have hle := nonpos_of_small hx hnormal hsmall
      obtain ⟨k, rfl⟩ : ∃ k : Nat, e = -k := ⟨(-e).toNat, by omega⟩
      obtain ⟨n, rfl⟩ : ∃ n, m = n * 2 ^ k := by
        rw [Int.neg_neg, Int.toNat_natCast] at hintegral
        rcases hintegral with hzero | hdvd
        · obtain rfl : k = 0 := by omega
          exact ⟨m, by omega⟩
        · exact ⟨m / 2 ^ k, (Nat.div_mul_cancel (Nat.dvd_of_mod_eq_zero hdvd)).symm⟩
      exact .inr ⟨s, n, k, hnormal, rfl⟩
    · obtain ⟨k, rfl, hk⟩ : ∃ k : Nat, e = -k ∧ 52 ≤ k := ⟨1074, hleast, by decide⟩
      rw [Int.neg_neg, Int.toNat_natCast] at hintegral
      rcases hintegral with hneg | hdvd
      · omega
      · have hlarge : 2 ^ k ≤ m := Nat.le_of_dvd hm (Nat.dvd_of_mod_eq_zero hdvd)
        have hpow : 2 ^ 52 ≤ 2 ^ k := Nat.pow_le_pow_right (by decide) hk
        exact absurd hshort (Nat.not_lt.mpr (hpow.trans hlarge))

theorem toInt64_zero (h : x.toModel.unpack = .zero s) : toInt64 x = 0 := by
  unfold toInt64 clampInt
  rw [ofFloat_eq, h]
  have hzero : Exact.floorMagnitude 0 (-1074) = 0 := Nat.zero_shiftRight _
  simp only [hzero]
  cases s <;> rfl

theorem toInt64_whole (h : IsNormal (n * 2 ^ k) (-k)) (hx : x.toModel.unpack = .finite s (n * 2 ^ k) (-k) h.pos) :
    toInt64 x = s.apply n := by
  have hfloor : Exact.floorMagnitude (n * 2 ^ k) (-k) = n := by
    unfold Exact.floorMagnitude
    split
    · obtain rfl : k = 0 := by omega
      simp
    · rw [Int.neg_neg, Int.toNat_natCast, Nat.shiftRight_eq_div_pow, Nat.mul_div_cancel _ (Nat.two_pow_pos k)]
  have hlt : n < 2 ^ 53 := Nat.lt_of_le_of_lt (Nat.le_mul_of_pos_right n (Nat.two_pow_pos k)) h.high
  unfold toInt64 clampInt
  rw [ofFloat_eq, hx]
  simp only [hfloor]
  unfold minInt64 maxInt64
  cases s with
  | positive =>
    show max _ (min _ (n : Int)) = n
    omega
  | negative =>
    show max _ (min _ (-(n : Int))) = -n
    omega

/-- **A small integral double is the double of its integer**, but for the negative zero. -/
theorem ofInt_toInt64 (hintegral : isIntegral x = true) (hsmall : x.abs < 9.0e15) :
    ofInt (toInt64 x) = x ∨ toInt64 x = 0 ∧ (ofInt 0 == x) = true := by
  rcases integral_cases hintegral hsmall with ⟨s, hx⟩ | ⟨s, n, k, h, hx⟩
  · refine .inr ⟨toInt64_zero hx, ?_⟩
    rw [← ofModel_unpack x, hx]
    cases s <;> rfl
  · refine .inl ?_
    rw [toInt64_whole h hx, ofInt_whole h, ← hx, ofModel_unpack]

end LiveTemplate.Number
