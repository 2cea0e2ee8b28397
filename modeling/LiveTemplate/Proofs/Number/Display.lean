import LiveTemplate.Number.Text
import LiveTemplate.Proofs.Json.Pointer
import LiveTemplate.Proofs.Number.Scientific
import LiveTemplate.Proofs.Syntax.Spelling
/-!
# The form of a written number

A number in a template is written in one form, whichever way its digits are found: the digits of an integer as
expressions have them, with no zero in front of others (`IsWhole`), and then at most six places, of which the
last is no zero (`IsPlaces`).  The integer is the integer part of the magnitude, or one more if the places are
carried.

The sign is that of the number, not that of the digits.  So it stands before nothing but zeros if the number
is negative and its millionths are rounded to none (`display_form`).
-/

set_option autoImplicit false

namespace LiveTemplate

variable {x : Float} {n : Nat} {e : Int} {digits : List Char}

/-! ## Digits -/

namespace Number

/-- The digits behind a point: at most six, and no zero at the end. -/
structure IsPlaces (digits : List Char) : Prop where
  all : IsDigits digits
  short : digits.length ≤ 6
  last : digits.getLast? ≠ some '0'

/-- Nothing but zeros. -/
def AllZero (digits : List Char) : Prop := ∀ c ∈ digits, c = '0'

theorem allZero_append {first second : List Char} :
    AllZero (first ++ second) ↔ AllZero first ∧ AllZero second := List.forall_mem_append

theorem allZero_zeros (k : Nat) : AllZero (Layout.zeros k) := fun _ => List.eq_of_mem_replicate

theorem isDigits_toDigits (n : Nat) : IsDigits (Nat.toDigits 10 n) := fun c hc => by
  have hdigit : c.isDigit = true := Nat.isDigit_of_mem_toDigits (by decide) (by decide) hc
  simpa [Char.isDigit, Grammar.isDecimalDigit, Char.le_def] using hdigit

theorem isDigits_zeros (k : Nat) : IsDigits (Layout.zeros k) := fun c hc => by
  rw [allZero_zeros k c hc]
  rfl

theorem isDigits_append {first second : List Char} (h : IsDigits first) (h' : IsDigits second) :
    IsDigits (first ++ second) := List.forall_mem_append.mpr ⟨h, h'⟩

theorem allZero_toDigits : AllZero (Nat.toDigits 10 n) ↔ n = 0 := by
  constructor
  · intro hzero
    by_contra hn
    obtain ⟨c, rest, hdigits⟩ := List.exists_cons_of_ne_nil (Nat.toDigits_ne_nil (b := 10) (n := n))
    obtain rfl := hzero c (hdigits ▸ List.mem_cons_self)
    exact Pointer.toDigits_head hn rest hdigits
  · rintro rfl
    exact List.forall_mem_singleton.mpr rfl

/-- The digits of a number begin with one that is no zero, whatever stands behind them. -/
theorem isWhole_toDigits {k : Nat} (h : n = 0 → k = 0) : IsWhole (Nat.toDigits 10 n ++ Layout.zeros k) := by
  rcases eq_or_ne n 0 with rfl | hn
  · rw [h rfl]
    exact .inl rfl
  · have hall := isDigits_append (isDigits_toDigits n) (isDigits_zeros k)
    obtain ⟨c, rest, hdigits⟩ := List.exists_cons_of_ne_nil (Nat.toDigits_ne_nil (b := 10) (n := n))
    rw [hdigits] at hall ⊢
    refine .inr ⟨c, rest ++ Layout.zeros k, rfl, ?_, hall⟩
    rintro rfl
    exact Pointer.toDigits_head hn rest hdigits

end Number

/-! ## The shortest digits -/

namespace Decimal

/-- No double but zero reads back from zero. -/
theorem not_readsBack_zero (hn : 0 < n) (place : Int) : readsBack n e ⟨0, place⟩ = false := by
  have hbelow (low : Nat) (hlow : 0 < low) : compareBinary 0 place low (e - 2) = .lt := by
    unfold compareBinary
    rw [Nat.zero_mul, Nat.zero_mul]
    exact Nat.compare_eq_lt.mpr (Nat.mul_pos (Nat.mul_pos hlow (Nat.two_pow_pos _)) (Nat.pow_pos (by decide)))
  unfold readsBack
  dsimp only
  rw [hbelow]
  · simp
  · split <;> omega

/-- A hit reads back. -/
theorem readsBack_of_ofLength? {tie : Tie} {k : Int} {length : Nat} {d : Decimal}
    (h : ofLength? tie n e k length = some d) : readsBack n e d = true := by
  unfold ofLength? at h
  dsimp only at h
  split at h
  · cases h
  · cases h
    assumption
  · cases h
    assumption
  · next hlower hupper =>
    split at h
    · cases h
      exact hlower
    · cases h
      exact hupper
    · cases h
      exact hupper
    · split at h
      · cases h
        exact hlower
      · cases h
        exact hupper

theorem strip_ne_zero {d : Decimal} (h : d.digits ≠ 0) : (strip d).digits ≠ 0 := by
  have hgo (fuel : Nat) : ∀ d : Decimal, d.digits ≠ 0 → (strip.go fuel d).digits ≠ 0 := by
    induction fuel with
    | zero => exact fun _ => id
    | succ fuel ih =>
      intro d hd
      rw [strip.go]
      split
      · next hten =>
        refine ih _ ?_
        show d.digits / 10 ≠ 0
        omega
      · exact hd
  exact hgo d.digits d h

/-- Of a number that is not zero not all digits are. -/
theorem shortest_ne_zero (tie : Tie) (hn : 0 < n) (e : Int) : (shortest tie n e).digits ≠ 0 := by
  unfold shortest
  rw [if_neg (by simpa using hn.ne')]
  dsimp only
  split
  · next d hfound =>
    obtain ⟨length, -, hlength⟩ := List.exists_of_findSome?_eq_some hfound
    have hreads := readsBack_of_ofLength? hlength
    refine strip_ne_zero fun hzero => ?_
    rw [show d = ⟨0, d.exponent⟩ from congrArg (Decimal.mk · d.exponent) hzero, not_readsBack_zero hn] at hreads
    cases hreads
  · exact strip_ne_zero (Nat.mul_pos (Nat.mul_pos hn (Nat.two_pow_pos _)) (Nat.pow_pos (by decide))).ne'

end Decimal

namespace Number

/-! ## The integer and the places -/

theorem wholeText_isWhole (hx : x.isFinite = true) : IsWhole (wholeText x) := by
  obtain ⟨s, m, e, hreading, -, -⟩ := reading_of_isFinite hx
  unfold wholeText
  rw [hreading]
  refine isWhole_toDigits fun hzero => ?_
  rcases Nat.eq_zero_or_pos m with rfl | hm
  · rfl
  · exact absurd hzero (Decimal.shortest_ne_zero .upward hm e)

theorem allZero_wholeText (hx : x.isFinite = true) : AllZero (wholeText x) ↔ value x = 0 := by
  obtain ⟨s, m, e, hreading, hvalue, -⟩ := reading_of_isFinite hx
  have hzero : (Decimal.shortest .upward m e).digits = 0 ↔ m = 0 := by
    constructor
    · intro hdigits
      by_contra hm
      exact Decimal.shortest_ne_zero .upward (Nat.pos_of_ne_zero hm) e hdigits
    · rintro rfl
      rfl
  have hmagnitude : signed s (m * 2 ^ e) = 0 ↔ m = 0 := by
    rw [← abs_eq_zero, abs_signed, abs_eq_zero, mul_eq_zero, Nat.cast_eq_zero]
    exact or_iff_left (two_zpow_pos e).ne'
  unfold wholeText
  rw [hreading, hvalue, hmagnitude, ← hzero]
  exact allZero_append.trans ((and_iff_left (allZero_zeros _)).trans allZero_toDigits)

/-- The places that millionths are cut to. -/
def placesOf (millionths : Nat) : List Char := (padded 6 millionths).rdropWhile (· == '0')

theorem fractionText_eq (millionths : Nat) : fractionText millionths
    = if placesOf millionths = [] then [] else '.' :: placesOf millionths := by
  unfold fractionText
  simp only [List.isEmpty_iff]
  rfl

theorem mem_padded {c : Char} (hc : c ∈ placesOf n) : c ∈ padded 6 n :=
  (List.rdropWhile_prefix (· == '0') (padded 6 n)).subset hc

theorem placesOf_last (hne : placesOf n ≠ []) : (placesOf n).getLast hne ≠ '0' := by
  have hnot := List.rdropWhile_last_not (· == '0') (padded 6 n) hne
  rwa [beq_iff_eq] at hnot

theorem isPlaces_placesOf (hn : n < 1000000) : IsPlaces (placesOf n) where
  all c hc := isDigits_append (isDigits_zeros _) (isDigits_toDigits n) c (mem_padded hc)
  short := by
    have hdigits : (Nat.toDigits 10 n).length ≤ 6 := Nat.toDigits_length 10 n 6 (by decide) hn
    have hlength : (padded 6 n).length = 6 := by
      unfold padded Layout.zeros
      rw [List.length_append, List.length_replicate]
      omega
    exact hlength ▸ (List.rdropWhile_prefix (· == '0') (padded 6 n)).length_le
  last hlast := by
    by_cases hne : placesOf n = []
    · rw [hne] at hlast
      cases hlast
    · rw [List.getLast?_eq_some_getLast hne] at hlast
      exact placesOf_last hne (Option.some.inj hlast)

theorem allZero_placesOf : AllZero (placesOf n) ↔ n = 0 := by
  have hpadded : AllZero (padded 6 n) ↔ n = 0 :=
    allZero_append.trans ((and_iff_right (allZero_zeros _)).trans allZero_toDigits)
  rw [← hpadded]
  constructor
  · -- no zeros are left of places that are all zero
    intro hzero
    have hnone : placesOf n = [] := by
      by_contra hne
      exact placesOf_last hne (hzero _ (List.getLast_mem hne))
    exact fun c hc => beq_iff_eq.mp (List.rdropWhile_eq_nil_iff.mp hnone c hc)
  · exact fun hzero c hc => hzero c (mem_padded hc)

/-! ## The parts of a number -/

theorem lt_zero_iff (hx : x.isFinite = true) : x < 0.0 ↔ value x < 0 := by
  have hlt : x < 0.0 ↔ Float.Model.UnpackedFloat.lt x.toModel.unpack (.zero .positive) = true :=
    ⟨fun h => of_decide_eq_true h, fun h => decide_eq_true h⟩
  rw [hlt]
  rcases finite_cases hx with ⟨s, hx⟩ | ⟨s, m, e, hm, hx⟩
  · rw [value_zero hx, hx]
    exact ⟨nofun, fun h => absurd h (lt_irrefl 0)⟩
  · have hpos : (0 : ℚ) < m * 2 ^ e := mul_pos (Nat.cast_pos.mpr hm) (two_zpow_pos e)
    rw [value_finite hx, hx]
    cases s
    · exact ⟨fun _ => neg_neg_of_pos hpos, fun _ => rfl⟩
    · exact ⟨nofun, fun h => absurd h hpos.not_gt⟩

theorem abs_denotes (hx : x.isFinite = true) : Denotes x.abs |value x| := by
  rcases finite_cases hx with ⟨s, hx⟩ | ⟨s, m, e, hm, hx⟩
  · have habs : x.abs = Float.ofModel (.pack (.zero .positive)) := by
      show Float.ofModel (.pack x.toModel.unpack.abs) = _
      rw [hx]
      rfl
    rw [habs, value_zero hx, abs_zero]
    exact ⟨rfl, value_zero (s := .positive) rfl⟩
  · have habs : x.abs = Float.ofModel (.pack (.finite .positive m e hm)) := by
      show Float.ofModel (.pack x.toModel.unpack.abs) = _
      rw [hx]
      rfl
    have hunpack : x.abs.toModel.unpack = .finite .positive m e hm :=
      habs ▸ unpack_pack_double (isDouble_of_unpack hx) hm
    refine ⟨?_, ?_⟩
    · show x.abs.toModel.unpack.isFinite = true
      rw [hunpack]
      rfl
    · rw [value_finite hunpack, value_finite hx, abs_signed, abs_of_nonneg (fraction_nonneg m e)]
      rfl

/-- A double that is cut denotes its integer part. -/
theorem trunc_denotes (hx : x.isFinite = true) : Denotes (trunc x) (truncate (value x)) := by
  refine roundWith_denotes _ _ truncate_intCast (fun s m k hk hlt => ?_) hx
  have hle := fraction_le hlt hk
  have hfloor := floorMagnitude_eq m (-k)
  have hsmall : ⌊(m : ℚ) * 2 ^ (-(k : Int))⌋ < 2 ^ 52 + 1 := Int.floor_lt.mpr (by push_cast; linarith)
  refine ⟨show Exact.floorMagnitude m (-k) < 2 ^ 53 by omega, ?_⟩
  rw [truncate_signed (fraction_nonneg m _), ← hfloor, apply_value]

/-- A double with a fraction has a place behind the point. -/
theorem lastPlace_neg_of_fract {q : ℚ} (h : IsMultiple q (lastPlace q)) (hne : Int.fract q ≠ 0) :
    lastPlace q < 0 := by
  by_contra hplace
  obtain ⟨n, hn⟩ := h.mono (not_lt.mp hplace)
  rw [zpow_zero, mul_one] at hn
  rw [hn, Int.fract_intCast] at hne
  exact hne rfl

/-- What is left of a double without its integer part is a double. -/
theorem isMultiple_fract {q : ℚ} (hq : 0 ≤ q) (h : IsMultiple q (lastPlace q)) :
    IsMultiple (Int.fract q) (lastPlace (Int.fract q)) := by
  by_cases hne : Int.fract q = 0
  · rw [hne]
    exact isMultiple_zero _
  · have hplace := lastPlace_neg_of_fract h hne
    have hfract : |Int.fract q| ≤ |q| := by
      rw [Int.abs_fract, abs_of_nonneg hq]
      exact sub_le_self q (by exact_mod_cast Int.floor_nonneg.mpr hq)
    have hle : lastPlace (Int.fract q) ≤ lastPlace q :=
      lastPlace_le hne (least_le_lastPlace q) (hfract.trans_lt (abs_lt_lastPlace q))
    exact (h.sub (isMultiple_intCast _ hplace.le)).mono hle

/-- The integer part of a magnitude. -/
theorem trunc_abs_denotes (hx : x.isFinite = true) : Denotes (trunc x.abs) (⌊|value x|⌋ : ℤ) := by
  obtain ⟨habs, hvalue⟩ := abs_denotes hx
  have htrunc := trunc_denotes habs
  rwa [hvalue, truncate, if_neg (abs_nonneg _).not_gt] at htrunc

theorem fract_lt (q : ℚ) : |Int.fract q| < 2 ^ (1023 : ℤ) := by
  rw [Int.abs_fract]
  exact (Int.fract_lt_one q).trans_le (one_le_zpow₀ one_le_two (by decide))

/-- The fraction of a magnitude is not rounded. -/
theorem fraction_denotes (hx : x.isFinite = true) : Denotes (x.abs - trunc x.abs) (Int.fract |value x|) := by
  obtain ⟨habs, hvalue⟩ := abs_denotes hx
  obtain ⟨htrunc, hfloor⟩ := trunc_abs_denotes hx
  have hmultiple := isMultiple_value habs
  have hrounds := sub_rounds habs htrunc
  rw [hvalue] at hmultiple
  rw [hvalue, hfloor, Int.self_sub_floor] at hrounds
  obtain ⟨hfinite, hnearest⟩ := hrounds (fract_lt _)
  exact ⟨hfinite, hnearest.eq_of_multiple (isMultiple_fract (abs_nonneg _) hmultiple)⟩

/-! ## Millionths -/

/-- The fraction of a number in millionths, as it is computed. -/
def scaled (x : Float) : Float := (x.abs - trunc x.abs) * 1000000.0

/-- The millionths of a number. -/
def millionths (x : Float) : Nat := (clampInt 0 1000000 (round (scaled x))).toNat

theorem million_denotes : Denotes 1000000.0 1000000 := by
  obtain ⟨hfinite, hvalue, -⟩ : IsInteger 1000000 1000000.0 := isInteger_sound (by decide)
  exact ⟨hfinite, hvalue.trans (Nat.cast_ofNat)⟩

theorem fract_millionths (q : ℚ) : 0 ≤ Int.fract q * 1000000 ∧ Int.fract q * 1000000 < 2 ^ (20 : ℤ) := by
  have hlt := Int.fract_lt_one q
  refine ⟨mul_nonneg (Int.fract_nonneg q) (by norm_num), ?_⟩
  norm_num
  linarith

theorem scaled_rounds (hx : x.isFinite = true) : Rounds (Int.fract |value x| * 1000000) (scaled x) := by
  obtain ⟨hfraction, hvalue⟩ := fraction_denotes hx
  obtain ⟨hmillion, hscale⟩ := million_denotes
  have hrounds := mul_rounds hfraction hmillion
  rw [hvalue, hscale] at hrounds
  obtain ⟨hnonneg, hsmall⟩ := fract_millionths |value x|
  refine hrounds ?_
  rw [abs_of_nonneg hnonneg]
  exact lt_two_zpow hsmall (by decide)

/-- The scaled fraction is rounded to an integer, from the middle up, and a million is the most it can be. -/
theorem millionths_eq (hx : x.isFinite = true) :
    (millionths x : ℤ) = min 1000000 ⌊value (scaled x) + 1 / 2⌋ := by
  obtain ⟨hfinite, hnearest⟩ := scaled_rounds hx
  have hnonneg := hnearest.nonneg (fract_millionths _).1
  obtain ⟨hround, hvalue⟩ := round_denotes hfinite
  have hfloor : 0 ≤ ⌊value (scaled x) + 1 / 2⌋ := Int.floor_nonneg.mpr (by linarith)
  unfold millionths
  rw [clampInt_eq hround, hvalue, truncate_intCast, roundAway, if_neg hnonneg.not_gt]
  omega

theorem millionths_le (hx : x.isFinite = true) : millionths x ≤ 1000000 := by
  have hmillionths := millionths_eq hx
  omega

/-- A number that is rounded to less than a half lies below the middle between the half and the double before
it. -/
theorem IsNearest.lt_half_iff {q z : ℚ} (h : IsNearest q z) (hq : 0 ≤ q) (hsmall : q < 2 ^ (20 : ℤ)) :
    z < 1 / 2 ↔ q < 1 / 2 - 2 ^ (-55 : ℤ) := by
  constructor
  · intro hz
    by_contra hge
    have hhalf : (1 : ℚ) / 2 ≤ z := by
      rcases lt_or_ge q (1 / 2) with hlt | hle
      · -- the half is even, and the middle goes to it
        have hplace : lastPlace q = -54 := by
          refine lastPlace_eq (by decide) ?_ ?_ <;> rw [abs_of_nonneg hq]
          · norm_num at hge ⊢
            linarith
          · norm_num at hlt ⊢
            exact hlt
        refine (h.eq_of_even (r := 1 / 2) ?_ ?_).ge <;> rw [hplace]
        · exact ⟨2 ^ 52, by norm_num⟩
        · rw [abs_le]
          norm_num at hge hlt ⊢
          constructor <;> linarith
      · -- above the half the places are those of a million
        have hmag : |q| < 2 ^ (-33 + 53 : ℤ) := by rwa [abs_of_nonneg hq]
        have hplace : lastPlace q ≤ -1 := (lastPlace_le_of_lt (by decide) hmag).trans (by decide)
        exact h.le_of_le (IsMultiple.mono ⟨1, by norm_num⟩ hplace) hle
    exact absurd hz hhalf.not_gt
  · intro hlt
    rcases eq_or_ne q 0 with rfl | hne
    · rw [h.eq_of_multiple (isMultiple_zero _)]
      norm_num
    · have hplace : lastPlace q ≤ -54 := by
        refine lastPlace_le hne (by decide) ?_
        rw [abs_of_nonneg hq]
        norm_num at hlt ⊢
        linarith
      have herror := (abs_le.mp h.error_le).1
      calc z ≤ q + 2 ^ (lastPlace q - 1) := by linarith only [herror]
        _ ≤ q + 2 ^ (-55 : ℤ) := by gcongr; exacts [one_le_two, by omega]
        _ < 1 / 2 := lt_sub_iff_add_lt.mp hlt

/-- **Which numbers have no millionths.** -/
theorem millionths_eq_zero (hx : x.isFinite = true) :
    millionths x = 0 ↔ Int.fract |value x| * 1000000 < 1 / 2 - 2 ^ (-55 : ℤ) := by
  obtain ⟨-, hnearest⟩ := scaled_rounds hx
  have hmillionths := millionths_eq hx
  obtain ⟨hnonneg, hsmall⟩ := fract_millionths |value x|
  rw [← hnearest.lt_half_iff hnonneg hsmall]
  have hfloor : ⌊value (scaled x) + 1 / 2⌋ ≤ 0 ↔ value (scaled x) < 1 / 2 := by
    rw [← Int.lt_add_one_iff, Int.floor_lt]
    norm_num
    constructor <;> intro h <;> linarith
  rw [← hfloor]
  have hvalue := hnearest.nonneg hnonneg
  have hfloor' : 0 ≤ ⌊value (scaled x) + 1 / 2⌋ := Int.floor_nonneg.mpr (by linarith)
  omega

/-! ## The two ways to write a number -/

/-- The integer in front of the point, with what is carried. -/
def wholePart (x : Float) : Float := if millionths x ≥ 1000000 then trunc x.abs + 1.0 else trunc x.abs

/-- The millionths behind the point, without what is carried. -/
def leftover (x : Float) : Nat := if millionths x ≥ 1000000 then millionths x - 1000000 else millionths x

theorem leftover_lt (hx : x.isFinite = true) : leftover x < 1000000 := by
  have hle := millionths_le hx
  unfold leftover
  split <;> omega

theorem one_denotes : Denotes 1.0 1 := by
  obtain ⟨hfinite, hvalue, -⟩ : IsInteger 1 1.0 := isInteger_sound (by decide)
  exact ⟨hfinite, hvalue.trans Nat.cast_one⟩

/-- A number whose fraction is carried is far below the integers that are rounded. -/
theorem floor_lt_of_carried (hx : x.isFinite = true) (hcarried : millionths x ≥ 1000000) :
    |value x| < 2 ^ (52 : ℤ) := by
  obtain ⟨habs, hvalue⟩ := abs_denotes hx
  have hmultiple := isMultiple_value habs
  rw [hvalue] at hmultiple
  have hne : Int.fract |value x| ≠ 0 := by
    intro hnone
    have hzero : millionths x = 0 := (millionths_eq_zero hx).mpr (by rw [hnone]; norm_num)
    omega
  have hplace := lastPlace_neg_of_fract hmultiple hne
  have hlt := abs_lt_lastPlace |value x|
  rw [abs_abs] at hlt
  exact lt_two_zpow hlt (by omega)

theorem wholePart_denotes (hx : x.isFinite = true) :
    Denotes (wholePart x) ((⌊|value x|⌋ + if millionths x ≥ 1000000 then 1 else 0 : ℤ) : ℚ) := by
  obtain ⟨htrunc, hvalue⟩ := trunc_abs_denotes hx
  unfold wholePart
  split
  · next hcarried =>
    obtain ⟨hone, hvalue'⟩ := one_denotes
    have hrounds := add_rounds htrunc hone
    have hlt := floor_lt_of_carried hx hcarried
    have hfloor : ⌊|value x|⌋ + 1 ≤ 2 ^ 52 := Int.add_one_le_iff.mpr (Int.floor_lt.mpr (by exact_mod_cast hlt))
    have hnonneg : 0 ≤ ⌊|value x|⌋ + 1 := Int.add_nonneg (Int.floor_nonneg.mpr (abs_nonneg _)) one_pos.le
    have hsum : value (trunc x.abs) + value 1.0 = ((⌊|value x|⌋ + 1 : ℤ) : ℚ) := by
      rw [hvalue, hvalue', Int.cast_add, Int.cast_one]
    rw [hsum] at hrounds
    generalize ⌊|value x|⌋ + 1 = n at *
    have habs : |(n : ℚ)| ≤ 2 ^ (52 : ℤ) := by
      rw [abs_of_nonneg (by exact_mod_cast hnonneg)]
      exact_mod_cast hfloor
    obtain ⟨hfinite, hnearest⟩ := hrounds (lt_two_zpow_of_le habs (by decide))
    refine ⟨hfinite, hnearest.eq_of_multiple (isMultiple_intCast n (lastPlace_le_of_lt (by decide) ?_))⟩
    exact lt_two_zpow_of_le habs (by decide)
  · next hkept =>
    rw [add_zero]
    exact ⟨htrunc, hvalue⟩

theorem fixedText_eq (hx : x.isFinite = true) : (fixedText x).toList
    = (if value x < 0 then ['-'] else []) ++ wholeText (wholePart x) ++ fractionText (leftover x) := by
  have hinf : x.isInf = false := by
    rw [Bool.eq_false_iff]
    intro hinf
    obtain ⟨_, hreading⟩ := reading_of_isInf hinf
    obtain ⟨_, _, _, hreading', -⟩ := reading_of_isFinite hx
    rw [hreading] at hreading'
    cases hreading'
  unfold fixedText
  rw [isNaN_of_isFinite hx, hinf]
  simp only [Bool.false_eq_true, if_false, lt_zero_iff hx, String.toList_ofList]
  rfl

/-- Whether nothing but zeros is written. -/
theorem allZero_fixed (hx : x.isFinite = true) :
    AllZero (wholeText (wholePart x) ++ placesOf (leftover x)) ↔ |value x| * 1000000 < 1 / 2 - 2 ^ (-55 : ℤ) := by
  obtain ⟨hfinite, hvalue⟩ := wholePart_denotes hx
  have hnonneg : 0 ≤ ⌊|value x|⌋ := Int.floor_nonneg.mpr (abs_nonneg _)
  have hparts : AllZero (wholeText (wholePart x) ++ placesOf (leftover x)) ↔ ⌊|value x|⌋ = 0 ∧ millionths x = 0 := by
    rw [allZero_append, allZero_wholeText hfinite, allZero_placesOf, hvalue, Int.cast_eq_zero]
    unfold leftover
    split <;> omega
  rw [hparts, millionths_eq_zero hx]
  constructor
  · rintro ⟨hfloor, hlt⟩
    rwa [← Int.self_sub_floor, hfloor, Int.cast_zero, sub_zero] at hlt
  · intro hlt
    have hfloor : ⌊|value x|⌋ = 0 := by
      refine Int.floor_eq_zero_iff.mpr ⟨abs_nonneg _, ?_⟩
      norm_num at hlt
      linarith
    refine ⟨hfloor, ?_⟩
    rwa [← Int.self_sub_floor, hfloor, Int.cast_zero, sub_zero]

theorem value_isIntegral (h : isIntegral x = true) : ∃ n : ℤ, value x = n := by
  unfold isIntegral at h
  cases hreading : Exact.ofFloat x with
  | nan => rw [hreading] at h; cases h
  | infinite => rw [hreading] at h; cases h
  | finite negative m e =>
    obtain ⟨s, m', e', hparts, hvalue, -⟩ := reading_of_isFinite (isFinite_of_reading hreading)
    rw [hreading] at hparts h
    cases hparts
    have hwhole : ∃ n : Nat, (m : ℚ) * 2 ^ e = n := by
      simp only [Bool.or_eq_true, decide_eq_true_eq, beq_iff_eq] at h
      rcases lt_or_ge e 0 with hneg | hnonneg
      · obtain ⟨k, rfl⟩ : ∃ k : Nat, e = -k := ⟨(-e).toNat, by omega⟩
        rw [Int.neg_neg, Int.toNat_natCast] at h
        obtain ⟨n, rfl⟩ := Nat.dvd_of_mod_eq_zero (h.resolve_left (by omega))
        refine ⟨n, ?_⟩
        show ((2 ^ k * n : Nat) : ℚ) * _ = _
        rw [zpow_neg, zpow_natCast]
        push_cast
        field_simp
      · obtain ⟨k, rfl⟩ := Int.eq_ofNat_of_zero_le hnonneg
        exact ⟨m * 2 ^ k, by rw [zpow_natCast]; push_cast; rfl⟩
    obtain ⟨n, hn⟩ := hwhole
    exact ⟨s.apply n, by rw [hvalue, hn, apply_value]⟩

theorem toList_toString (n : ℤ) :
    (toString n).toList = (if n < 0 then ['-'] else []) ++ Nat.toDigits 10 n.natAbs := by
  cases n with
  | ofNat n =>
    have hsign : ¬Int.ofNat n < 0 := (Int.natCast_nonneg n).not_gt
    rw [if_neg hsign]
    exact Nat.toList_repr
  | negSucc n =>
    rw [if_pos (by omega)]
    show ("-" ++ Nat.repr (n + 1)).toList = _
    rw [String.toList_append, Nat.toList_repr]
    rfl

/-- An integer in range is written with its own sign, and with a zero if it is one. -/
theorem toInt64_form (hx : x.isFinite = true) (hinteger : isIntegral x = true) : (value x < 0 ↔ toInt64 x < 0) ∧
    ((toInt64 x).natAbs = 0 ↔ |value x| * 1000000 < 1 / 2 - 2 ^ (-55 : ℤ)) := by
  obtain ⟨n, hn⟩ := value_isIntegral hinteger
  have hread : toInt64 x = max minInt64 (min maxInt64 n) := by rw [toInt64, clampInt_eq hx, hn, truncate_intCast]
  have hzero : |(n : ℚ)| * 1000000 < 1 / 2 - 2 ^ (-55 : ℤ) ↔ n = 0 := by
    constructor
    · intro hlt
      by_contra hne
      have hone : (1 : ℚ) ≤ |(n : ℚ)| := by exact_mod_cast Int.one_le_abs hne
      norm_num at hlt
      linarith
    · rintro rfl
      norm_num
  rw [hn, hzero, Int.cast_lt_zero, hread]
  unfold minInt64 maxInt64
  omega

/-- **The form of a written number.**  The digits in front of the point have no zero before others, those behind
it are at most six and end in no zero, and there is no point without them.  The sign is that of the number; so it
stands before a zero exactly if the number is negative and its magnitude lies below the middle between half a
millionth and the double before it, in millionths. -/
theorem display_form (hx : x.isFinite = true) : ∃ whole places, IsWhole whole ∧ IsPlaces places ∧
    (display x).toList = (if value x < 0 then ['-'] else []) ++ whole ++
      (if places = [] then [] else '.' :: places) ∧
    (AllZero (whole ++ places) ↔ |value x| * 1000000 < 1 / 2 - 2 ^ (-55 : ℤ)) := by
  unfold display integerText?
  split
  · next text htext =>
    split at htext
    · next hinteger =>
      cases htext
      obtain ⟨hsign, hzero⟩ := toInt64_form hx (Bool.and_eq_true_iff.mp hinteger).2
      refine ⟨Nat.toDigits 10 (toInt64 x).natAbs, [], ?_, ⟨nofun, by decide, nofun⟩, ?_, ?_⟩
      · have hwhole := isWhole_toDigits (n := (toInt64 x).natAbs) (k := 0) fun _ => rfl
        rwa [show Layout.zeros 0 = [] from rfl, List.append_nil] at hwhole
      · simp only [toList_toString, hsign, if_true, List.append_nil]
      · rw [List.append_nil, allZero_toDigits, hzero]
    · cases htext
  · exact ⟨wholeText (wholePart x), placesOf (leftover x), wholeText_isWhole (wholePart_denotes hx).1,
      isPlaces_placesOf (leftover_lt hx), by rw [fixedText_eq hx, fractionText_eq], allZero_fixed hx⟩

/-- The tenth part of a millionth below zero keeps its sign, but no digit. -/
theorem display_form_negligible : Float.isFinite (-0.0000001) = true ∧ display (-0.0000001) = "-0" ∧
    ∃ whole places, IsWhole whole ∧ IsPlaces places ∧
      (display (-0.0000001)).toList = '-' :: whole ++ (if places = [] then [] else '.' :: places) ∧
      AllZero (whole ++ places) := by
  have hfinite : Float.isFinite (-0.0000001) = true := rfl
  have hunpack : (Float.toModel (-0.0000001)).unpack = .finite .negative 7555786372591432 (-76) (by decide) := rfl
  have hvalue : value (-0.0000001) = -(7555786372591432 * 2 ^ (-76 : ℤ)) := value_finite hunpack
  obtain ⟨whole, places, hwhole, hplaces, htext, hzero⟩ := display_form hfinite
  refine ⟨hfinite, rfl, whole, places, hwhole, hplaces, ?_, hzero.mpr ?_⟩
  · rwa [if_pos (by rw [hvalue]; norm_num)] at htext
  · rw [hvalue]
    norm_num

end Number

end LiveTemplate
