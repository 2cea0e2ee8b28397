import LiveTemplate.Proofs.Calendar.Gregorian
import LiveTemplate.Proofs.Number.Floor
/-!
# The instants of times

A time is split into its day and what is left of the day, and both are rounded: the quotient by the length
of a day, and the difference to the midnight of that day.  For most times neither matters.  A midnight and a
time are multiples of one power of two, so a time is well away from a midnight that is not its own
(`midnight_gap`), and the quotient is rounded too finely to reach the next day (`day_lt`).  What is left of
the day has no more digits than the time (`lastPlace_rest`), so the difference is exact.

There remain the times shortly before the epoch.  They have more digits behind the point than there is room
for beside the milliseconds of a day, and what is left of the day before may be rounded up to the next whole
millisecond, even to the midnight.  `Overshoots` says of which times this is so.
-/

set_option autoImplicit false

namespace LiveTemplate.Calendar

open Number

/-! ## Days -/

section Reckoning

variable {v y z : ℚ}

/-- The time is so little before a whole millisecond that doubles do not tell the two apart once they are
counted from the midnight before. -/
def Overshoots (v : ℚ) : Prop :=
  v < 0 ∧ (⌊v⌋ : ℚ) ≠ v ∧ ⌈v⌉ - v ≤ if v < 2 ^ 26 - 86400000 then 2 ^ (-28 : ℤ) else 2 ^ (-27 : ℤ)

instance (v : ℚ) : Decidable (Overshoots v) := inferInstanceAs (Decidable (_ ∧ _ ∧ _))

/-- Times up to `2 ^ 53` are multiples of no more than two. -/
theorem lastPlace_le_one (hbound : |v| ≤ 2 ^ 53) : lastPlace v ≤ 1 :=
  lastPlace_le_of_lt (by decide) (hbound.trans_lt (by norm_num))

theorem isMultiple_midnight (k : ℤ) {e : ℤ} (hle : e ≤ 10) : IsMultiple (k * 86400000 : ℤ) e := by
  refine IsMultiple.mono ⟨k * 84375, ?_⟩ hle
  push_cast
  ring

/-- Midnights are a unit away from any other time. -/
theorem midnight_gap (hv : IsMultiple v (lastPlace v)) (hbound : |v| ≤ 2 ^ 53) {k : ℤ} (hlt : v / 86400000 < k) :
    (2 : ℚ) ^ lastPlace v ≤ (k * 86400000 : ℤ) - v := by
  have hle := lastPlace_le_one hbound
  refine ((isMultiple_midnight k (by omega)).sub hv).le_of_pos (sub_pos.mpr ?_)
  rw [div_lt_iff₀ (by norm_num)] at hlt
  push_cast
  exact hlt

/-- The quotient by the length of a day has its last place at least twenty-six places further. -/
theorem lastPlace_day (hne : v ≠ 0) (hplace : -1048 ≤ lastPlace v) : lastPlace (v / 86400000) ≤ lastPlace v - 26 := by
  refine lastPlace_le (div_ne_zero hne (by norm_num)) (by omega) ?_
  rw [abs_div, abs_of_pos (show (0 : ℚ) < 86400000 by norm_num), div_lt_iff₀ (by norm_num)]
  calc |v| < 2 ^ (lastPlace v + 53) := abs_lt_lastPlace v
    _ = 2 ^ (lastPlace v - 26 + 53) * 2 ^ (26 : ℤ) := by
      rw [← two_zpow_add]
      congr 1
      ring
    _ ≤ 2 ^ (lastPlace v - 26 + 53) * 86400000 :=
      mul_le_mul_of_nonneg_left (by norm_num) (two_zpow_pos _).le

/-- Rounding the quotient does not reach the next day, unless the time is too small to be divided. -/
theorem day_lt (hv : IsMultiple v (lastPlace v)) (hbound : |v| ≤ 2 ^ 53) (hne : v ≠ 0) (hplace : -1048 ≤ lastPlace v)
    (hy : IsNearest (v / 86400000) y) {k : ℤ} (hlt : v / 86400000 < k) : y < k := by
  have hgap := midnight_gap hv hbound hlt
  have herror := (abs_le.mp hy.error_le).1
  have hhalf : (2 : ℚ) ^ (lastPlace (v / 86400000) - 1) ≤ 2 ^ (lastPlace v - 27) :=
    zpow_le_zpow_right₀ one_le_two (by linarith [lastPlace_day hne hplace])
  have hunit : (2 : ℚ) ^ lastPlace v = 2 ^ (lastPlace v - 27) * 134217728 := by
    rw [show lastPlace v = lastPlace v - 27 + 27 by ring, two_zpow_add]
    norm_num
  have hpos := two_zpow_pos (lastPlace v - 27)
  have hquotient : v / 86400000 * 86400000 = v := div_mul_cancel₀ v (by norm_num)
  push_cast at hgap
  linarith

/-- A time of less than a day before the epoch is on the day before it. -/
theorem day_before (hneg : v < 0) (hlow : -86400000 ≤ v) : ⌊v / 86400000⌋ = -1 := by
  have hquotient : v / 86400000 * 86400000 = v := div_mul_cancel₀ v (by norm_num)
  exact Int.floor_eq_iff.mpr ⟨by push_cast; linarith, by push_cast; linarith⟩

/-- **The day of a time is found**, but for the least fractions of a millisecond before the epoch: these are
so small that no day is left of them. -/
theorem day_eq (hv : IsMultiple v (lastPlace v)) (hbound : |v| ≤ 2 ^ 53) (hy : IsNearest (v / 86400000) y) :
    ⌊y⌋ = ⌊v / 86400000⌋ ∨ -2 ^ (-27 : ℤ) ≤ v ∧ v < 0 ∧ ⌊y⌋ = 0 := by
  rcases eq_or_ne v 0 with rfl | hne
  · rw [zero_div] at hy ⊢
    exact .inl (congrArg _ (hy.eq_of_multiple (isMultiple_zero _)))
  have hquotient : v / 86400000 * 86400000 = v := div_mul_cancel₀ v (by norm_num)
  have hplace : lastPlace (v / 86400000) ≤ 0 := by
    obtain ⟨hlow, hhigh⟩ := abs_le.mp hbound
    refine lastPlace_le_of_lt (by decide) (abs_lt.mpr ⟨?_, ?_⟩) <;> norm_num <;> linarith
  have hge : (⌊v / 86400000⌋ : ℚ) ≤ y := hy.le_of_le (isMultiple_intCast _ hplace) (Int.floor_le _)
  by_cases hsmall : -1048 ≤ lastPlace v
  · refine .inl (Int.floor_eq_iff.mpr ⟨hge, ?_⟩)
    have hlt := day_lt (k := ⌊v / 86400000⌋ + 1) hv hbound hne hsmall hy (by push_cast; exact Int.lt_floor_add_one _)
    exact_mod_cast hlt
  · -- the time is so near the epoch that its day is today or yesterday
    have htiny : |v| < 2 ^ (-27 : ℤ) := lt_two_zpow (abs_lt_lastPlace v) (by omega)
    obtain ⟨hlow, hhigh⟩ := abs_lt.mp htiny
    rw [show (2 : ℚ) ^ (-27 : ℤ) = 1 / 134217728 by norm_num] at hlow hhigh ⊢
    rcases hne.lt_or_gt with hneg | hpos
    · have hday : ⌊v / 86400000⌋ = -1 := day_before hneg (by linarith)
      have hle : y ≤ (0 : ℤ) := hy.ge_of_ge (isMultiple_intCast 0 hplace) (by push_cast; linarith)
      rw [hday] at hge ⊢
      push_cast at hge hle
      rcases hle.lt_or_eq with hlt | rfl
      · exact .inl (Int.floor_eq_iff.mpr ⟨by push_cast; exact hge, by push_cast; linarith⟩)
      · exact .inr ⟨hlow.le, hneg, Int.floor_zero⟩
    · have hday : ⌊v / 86400000⌋ = 0 := Int.floor_eq_iff.mpr ⟨by push_cast; linarith, by push_cast; linarith⟩
      have hhalf : (2 : ℚ) ^ (lastPlace (v / 86400000) - 1) ≤ 2 ^ (-1 : ℤ) :=
        zpow_le_zpow_right₀ one_le_two (by omega)
      have herror := (abs_le.mp hy.error_le).1
      rw [hday] at hge ⊢
      push_cast at hge
      norm_num at hhalf
      exact .inl (Int.floor_eq_iff.mpr ⟨by push_cast; exact hge, by push_cast; linarith⟩)

/-- A time is between two midnights, or at the first of them. -/
theorem day_bounds (v : ℚ) : (⌊v / 86400000⌋ : ℚ) * 86400000 ≤ v ∧ v < (⌊v / 86400000⌋ + 1) * 86400000 :=
  ⟨(le_div_iff₀ (by norm_num)).mp (Int.floor_le _), (div_lt_iff₀ (by norm_num)).mp (Int.lt_floor_add_one _)⟩

/-- What is left of a time after whole days. -/
def rest (v : ℚ) (k : ℤ) : ℚ := v - (k * 86400000 : ℤ)

/-- What is left of a day after the epoch, or long before it, is in the digits of the time. -/
theorem lastPlace_rest (hfar : 0 ≤ v ∨ v ≤ -2 ^ 25) (hne : rest v ⌊v / 86400000⌋ ≠ 0) :
    lastPlace (rest v ⌊v / 86400000⌋) ≤ lastPlace v := by
  unfold rest at *
  obtain ⟨hday, hnext⟩ := day_bounds v
  have hmag := abs_lt_lastPlace v
  refine lastPlace_le hne (least_le_lastPlace v) ?_
  push_cast
  rw [abs_of_nonneg (by linarith)]
  rcases hfar with hnonneg | hlong
  · have hzero : (0 : ℚ) ≤ ⌊v / 86400000⌋ := by
      exact_mod_cast Int.floor_nonneg.mpr (div_nonneg hnonneg (by norm_num))
    rw [abs_of_nonneg hnonneg] at hmag
    linarith
  · have hleast : -27 ≤ lastPlace v := by
      refine le_lastPlace ?_
      rw [abs_of_nonpos (by linarith)]
      norm_num
      linarith
    rcases hleast.lt_or_eq with hlt | heq
    · have hunit : (2 : ℚ) ^ (27 : ℤ) ≤ 2 ^ (lastPlace v + 53) := zpow_le_zpow_right₀ one_le_two (by omega)
      norm_num at hunit
      linarith
    · -- the time is on the day before the epoch
      rw [← heq] at hmag ⊢
      rw [abs_of_nonpos (by linarith)] at hmag
      norm_num at hmag ⊢
      rw [day_before (by linarith) (by linarith)]
      push_cast
      linarith

/-- Long before the epoch, times are too far apart to overshoot. -/
theorem not_overshoots (hv : IsMultiple v (lastPlace v)) (hfar : 0 ≤ v ∨ v ≤ -2 ^ 25) : ¬Overshoots v := by
  rintro ⟨hneg, hfraction, hclose⟩
  have hlong : v ≤ -2 ^ 25 := hfar.resolve_left hneg.not_ge
  have hleast : -27 ≤ lastPlace v := by
    refine le_lastPlace ?_
    rw [abs_of_nonpos (by linarith)]
    norm_num
    linarith
  have hgap : (2 : ℚ) ^ (-27 : ℤ) ≤ ⌈v⌉ - v := by
    refine ((isMultiple_intCast ⌈v⌉ (by decide)).sub (hv.mono hleast)).le_of_pos (sub_pos.mpr ?_)
    refine (Int.le_ceil v).lt_of_ne fun heq => hfraction ?_
    rw [heq, Int.floor_intCast]
  rw [if_pos (by norm_num at hlong ⊢; linarith)] at hclose
  norm_num at hclose hgap
  linarith

theorem rest_of_far (hv : IsMultiple v (lastPlace v)) (hbound : |v| ≤ 2 ^ 53) (hfar : 0 ≤ v ∨ v ≤ -2 ^ 25)
    (hz : IsNearest (rest v ⌊v / 86400000⌋) z) : ⌊v / 86400000⌋ * 86400000 + ⌊z⌋ = ⌊v⌋ := by
  have hplace := lastPlace_le_one hbound
  have hexact : z = rest v ⌊v / 86400000⌋ := by
    by_cases hzero : rest v ⌊v / 86400000⌋ = 0
    · exact hz.eq_of_multiple (hzero ▸ isMultiple_zero _)
    · have hmultiple : IsMultiple (rest v ⌊v / 86400000⌋) (lastPlace v) := hv.sub (isMultiple_midnight _ (by omega))
      exact hz.eq_of_multiple (hmultiple.mono (lastPlace_rest hfar hzero))
  rw [hexact, rest, Int.floor_sub_intCast]
  ring

/-- Shortly before the epoch half a unit of the rest is the margin of `Overshoots`. -/
theorem margin_of_near (hneg : v < 0) (hnear : -2 ^ 25 < v) : lastPlace (v + 86400000) < 0 ∧
    (2 : ℚ) ^ (lastPlace (v + 86400000) - 1) = if v < 2 ^ 26 - 86400000 then 2 ^ (-28 : ℤ) else 2 ^ (-27 : ℤ) := by
  have hmag : |v + 86400000| = v + 86400000 := abs_of_pos (by linarith)
  split
  · next hlow =>
    have hplace : lastPlace (v + 86400000) = -27 := by
      refine lastPlace_eq (by decide) ?_ ?_ <;> rw [hmag] <;> norm_num <;> linarith
    rw [hplace]
    exact ⟨by decide, rfl⟩
  · next hhigh =>
    have hplace : lastPlace (v + 86400000) = -26 := by
      refine lastPlace_eq (by decide) ?_ ?_ <;> rw [hmag] <;> norm_num <;> linarith
    rw [hplace]
    exact ⟨by decide, rfl⟩

theorem rest_of_near (hneg : v < 0) (hnear : -2 ^ 25 < v) (hz : IsNearest (v + 86400000) z) :
    ⌊z⌋ - 86400000 = if Overshoots v then ⌈v⌉ else ⌊v⌋ := by
  obtain ⟨hplace, hmargin⟩ := margin_of_near hneg hnear
  have hfloor : ((⌊v⌋ + 86400000 : ℤ) : ℚ) ≤ v + 86400000 := by
    push_cast
    linarith [Int.floor_le v]
  by_cases hwhole : (⌊v⌋ : ℚ) = v
  · rw [if_neg fun h => h.2.1 hwhole]
    have hinteger : v + 86400000 = ((⌊v⌋ + 86400000 : ℤ) : ℚ) := by
      push_cast
      rw [hwhole]
    have hexact : z = v + 86400000 := hz.eq_of_multiple (hinteger ▸ isMultiple_intCast _ (hinteger ▸ hplace.le))
    rw [hexact, hinteger, Int.floor_intCast]
    ring
  · have hceil : ⌈v⌉ = ⌊v⌋ + 1 := by
      have hlt : (⌊v⌋ : ℚ) < v := (Int.floor_le v).lt_of_ne hwhole
      refine Int.ceil_eq_iff.mpr ⟨?_, ?_⟩ <;> push_cast
      · linarith
      · exact (Int.lt_floor_add_one v).le
    by_cases hclose : ⌈v⌉ - v ≤ 2 ^ (lastPlace (v + 86400000) - 1)
    · rw [if_pos ⟨hneg, hwhole, hmargin ▸ hclose⟩]
      have heven : z = ((⌈v⌉ + 86400000 : ℤ) : ℚ) := by
        refine hz.eq_of_even (isMultiple_intCast _ hplace) (abs_le.mpr ⟨?_, ?_⟩) <;> push_cast
        · linarith
        · linarith [Int.le_ceil v, two_zpow_pos (lastPlace (v + 86400000) - 1)]
      rw [heven, Int.floor_intCast]
      ring
    · rw [if_neg fun h => hclose (hmargin ▸ h.2.2)]
      have hge := hz.le_of_le (isMultiple_intCast _ hplace.le) hfloor
      have herror := (abs_le.mp hz.error_le).1
      have hz : ⌊z⌋ = ⌊v⌋ + 86400000 := by
        refine Int.floor_eq_iff.mpr ⟨hge, ?_⟩
        rw [hceil] at hclose
        push_cast at hclose ⊢
        linarith
      rw [hz]
      ring

/-- **What is left of the day** is as long as the time before it is rounded down, or rounded up. -/
theorem rest_eq (hv : IsMultiple v (lastPlace v)) (hbound : |v| ≤ 2 ^ 53) (hz : IsNearest (rest v ⌊v / 86400000⌋) z) :
    0 ≤ z ∧ z ≤ 86400000 ∧ ⌊v / 86400000⌋ * 86400000 + ⌊z⌋ = if Overshoots v then ⌈v⌉ else ⌊v⌋ := by
  obtain ⟨hday, hnext⟩ := day_bounds v
  have hnonneg : ((0 : ℤ) : ℚ) ≤ rest v ⌊v / 86400000⌋ := by
    unfold rest
    push_cast
    linarith
  have hle : rest v ⌊v / 86400000⌋ ≤ (86400000 : ℤ) := by
    unfold rest
    push_cast
    linarith
  have hplace : lastPlace (rest v ⌊v / 86400000⌋) ≤ 0 := by
    refine lastPlace_le_of_lt (by decide) ?_
    rw [abs_of_nonneg (by exact_mod_cast hnonneg)]
    exact hle.trans_lt (by norm_num)
  refine ⟨?_, ?_, ?_⟩
  · exact_mod_cast hz.le_of_le (isMultiple_intCast 0 hplace) hnonneg
  · exact_mod_cast hz.ge_of_ge (isMultiple_intCast 86400000 hplace) hle
  · by_cases hfar : 0 ≤ v ∨ v ≤ -2 ^ 25
    · rw [if_neg (not_overshoots hv hfar)]
      exact rest_of_far hv hbound hfar hz
    · rw [not_or, not_le, not_le] at hfar
      obtain ⟨hneg, hnear⟩ := hfar
      have hyesterday := day_before hneg (by linarith)
      have hrest : rest v (-1) = v + 86400000 := by
        unfold rest
        push_cast
        ring
      rw [hyesterday, hrest] at hz
      rw [← rest_of_near hneg hnear hz, hyesterday]
      ring

end Reckoning

/-! ## Times -/

variable {time : Float}

theorem dayLength_denotes : Denotes dayLength 86400000 := by
  have hunpack : dayLength.toModel.unpack = .finite .positive (86400000 * 2 ^ 26) (-26) (by decide) := rfl
  refine ⟨rfl, ?_⟩
  rw [value_finite hunpack]
  show ((86400000 * 2 ^ 26 : Nat) : ℚ) * 2 ^ (-26 : ℤ) = 86400000
  norm_num

/-- The numbers of this module are far from the greatest double. -/
theorem lt_limit {q : ℚ} (h : |q| ≤ 2 ^ 60) : |q| < 2 ^ (1023 : ℤ) :=
  h.trans_lt (zpow_lt_zpow_right₀ (m := 60) (n := 1023) one_lt_two (by decide))

/-- The time by days, as a double. -/
theorem quotient_rounds (hfinite : time.isFinite = true) (hbound : |value time| ≤ 2 ^ 53) :
    Rounds (value time / 86400000) (time / dayLength) := by
  obtain ⟨hday, hlength⟩ := dayLength_denotes
  have hround := div_rounds hfinite hday (by rw [hlength]; norm_num)
  rw [hlength] at hround
  refine hround (lt_limit ?_)
  rw [abs_div, abs_of_pos (show (0 : ℚ) < 86400000 by norm_num), div_le_iff₀ (by norm_num)]
  exact hbound.trans (by norm_num)

/-- The midnight of a day, as a double, is exact. -/
theorem midnight_denotes {days : ℤ} {day : Float} (hday : Denotes day days) (hsmall : |(days : ℚ)| ≤ 2 ^ 27) :
    Denotes (day * dayLength) (days * 86400000 : ℤ) := by
  obtain ⟨hfinite, hvalue⟩ := hday
  obtain ⟨hlength, hdayLength⟩ := dayLength_denotes
  have hmag : |(days : ℚ) * 86400000| ≤ 2 ^ 54 := by
    rw [abs_mul, abs_of_pos (show (0 : ℚ) < 86400000 by norm_num)]
    linarith
  have hround := mul_rounds hfinite hlength
  rw [hvalue, hdayLength] at hround
  obtain ⟨hproduct, hnearest⟩ := hround (lt_limit (hmag.trans (by norm_num)))
  refine ⟨hproduct, ?_⟩
  have hplace : lastPlace ((days : ℚ) * 86400000) ≤ 10 := lastPlace_le_of_lt (by decide) (hmag.trans_lt (by norm_num))
  have hmultiple := isMultiple_midnight days hplace
  push_cast at hmultiple ⊢
  exact hnearest.eq_of_multiple hmultiple

theorem day_small {v : ℚ} (hbound : |v| ≤ 2 ^ 53) : |(⌊v / 86400000⌋ : ℚ)| ≤ 2 ^ 27 := by
  obtain ⟨hlow, hhigh⟩ := abs_le.mp hbound
  obtain ⟨hday, hnext⟩ := day_bounds v
  exact abs_le.mpr ⟨by linarith, by linarith⟩

/-- The day count of a time, and what is left of the time, as numbers. -/
theorem time_cases (hfinite : time.isFinite = true) (hbound : |value time| ≤ 2 ^ 53) : ∃ (days : ℤ) (z : ℚ),
    toInt64 (dayOf time) = days ∧ |days| ≤ 2 ^ 27 ∧ IsNearest (rest (value time) days) z ∧
      (days = ⌊value time / 86400000⌋ ∨ -2 ^ (-27 : ℤ) ≤ value time ∧ value time < 0 ∧ days = 0) ∧
      ofDay time = (max 0 (min 18446744073709551615 (truncate z))).toNat := by
  obtain ⟨hquotient, hnearest⟩ := quotient_rounds hfinite hbound
  have hday : Denotes (dayOf time) ⌊value (time / dayLength)⌋ := floor_denotes hquotient
  have hcases := day_eq (isMultiple_value hfinite) hbound hnearest
  generalize ⌊value (time / dayLength)⌋ = days at hday hcases
  have hsmall : |(days : ℚ)| ≤ 2 ^ 27 := by
    rcases hcases with rfl | ⟨-, -, rfl⟩
    · exact day_small hbound
    · norm_num
  have hword : |days| ≤ 2 ^ 27 := by exact_mod_cast hsmall
  obtain ⟨hmidnight, hexact⟩ := midnight_denotes hday hsmall
  have hrest : |value time - value (dayOf time * dayLength)| ≤ 2 ^ 60 := by
    obtain ⟨hlow, hhigh⟩ := abs_le.mp hbound
    obtain ⟨hfirst, hlast⟩ := abs_le.mp hsmall
    rw [hexact]
    push_cast
    exact abs_le.mpr ⟨by linarith, by linarith⟩
  obtain ⟨hrest, hz⟩ := sub_rounds hfinite hmidnight (lt_limit hrest)
  rw [hexact] at hz
  refine ⟨days, _, ?_, hword, hz, hcases, ?_⟩
  · obtain ⟨hlow, hhigh⟩ := abs_le.mp hword
    unfold toInt64 minInt64 maxInt64
    rw [clampInt_eq hday.1, hday.2, truncate_intCast]
    omega
  · unfold ofDay
    rw [clampInt_eq hrest]

/-- The day count and the milliseconds of the day make up the time, rounded down or rounded up. -/
theorem instant_eq (hfinite : time.isFinite = true) (hbound : |value time| ≤ 2 ^ 53) :
    |toInt64 (dayOf time)| ≤ 2 ^ 27 ∧ ofDay time ≤ 86400000 ∧
      toInt64 (dayOf time) * 86400000 + ofDay time
        = (if Overshoots (value time) then ⌈value time⌉ else ⌊value time⌋) ∧
      (¬Overshoots (value time) → ofDay time < 86400000) := by
  obtain ⟨days, z, hdays, hword, hz, hcases, hofDay⟩ := time_cases hfinite hbound
  rw [hdays, hofDay]
  rcases hcases with rfl | ⟨hlow, hneg, rfl⟩
  · obtain ⟨hnonneg, hle, hsum⟩ := rest_eq (isMultiple_value hfinite) hbound hz
    have htruncate : truncate z = ⌊z⌋ := if_neg hnonneg.not_gt
    have hfloor : 0 ≤ ⌊z⌋ := Int.floor_nonneg.mpr hnonneg
    have hmost : ⌊z⌋ ≤ 86400000 := by exact_mod_cast (Int.floor_le z).trans hle
    rw [htruncate]
    refine ⟨hword, by omega, ?_, fun hright => ?_⟩
    · rw [← hsum]
      omega
    · have hlt : ⌊value time⌋ < (⌊value time / 86400000⌋ + 1) * 86400000 := by
        exact_mod_cast (Int.floor_le (value time)).trans_lt (day_bounds (value time)).2
      rw [if_neg hright] at hsum
      omega
  · -- nothing is left of the time but a fraction below zero, which is dropped
    have hrest : rest (value time) 0 = value time := by
      unfold rest
      norm_num
    rw [hrest] at hz
    norm_num at hlow
    have hceil : ⌈value time⌉ = 0 := Int.ceil_eq_iff.mpr ⟨by push_cast; linarith, by push_cast; exact hneg.le⟩
    have hovershoots : Overshoots (value time) := by
      refine ⟨hneg, fun hwhole => ?_, ?_⟩
      · have hfloor : ⌊value time⌋ = -1 := Int.floor_eq_iff.mpr ⟨by push_cast; linarith, by push_cast; linarith⟩
        rw [hfloor] at hwhole
        push_cast at hwhole
        linarith
      · rw [hceil, if_neg (by linarith)]
        norm_num
        linarith
    have htruncate : truncate z = 0 := by
      rw [hz.eq_of_multiple (isMultiple_value hfinite), truncate, if_pos hneg, hceil]
    rw [htruncate, if_pos hovershoots, hceil]
    exact ⟨by decide, by decide, by decide, fun hright => absurd hovershoots hright⟩

/-- **A time up to `2 ^ 53` is split into the date and the time of day of its whole milliseconds.**  The date is
that of a day count, and the milliseconds of that day are counted from its midnight, so that the two make up
the time rounded down.  The one exception are the times of `Overshoots`, which is exact: they have the date and
the time of day of the whole millisecond after them, and the last of a day is given as hour twenty-four. -/
theorem read_denotes (hfinite : time.isFinite = true) (hbound : |value time| ≤ 2 ^ 53) :
    ∃ (moment : Moment) (days instant : ℤ), read time = .moment moment ∧
      momentInWords (toInt64 (dayOf time)) (ofDay time) = some moment ∧
      dateOfDays days = ⟨moment.year, moment.month + 1, moment.date⟩ ∧ weekDay days = moment.weekDay ∧
      moment.month < 12 ∧ moment.minutes < 60 ∧ moment.seconds < 60 ∧ moment.milliseconds < 1000 ∧
      days * 86400000 + moment.hours * 3600000 + moment.minutes * 60000 + moment.seconds * 1000 + moment.milliseconds
        = instant ∧
      (instant = if Overshoots (value time) then ⌈value time⌉ else ⌊value time⌋) ∧
      (moment.hours < 24 ∧ instant = ⌊value time⌋ ↔ ¬Overshoots (value time)) := by
  obtain ⟨hword, hle, hsum, hright⟩ := instant_eq hfinite hbound
  have hread : read time = .moment (momentOf (toInt64 (dayOf time)) (ofDay time)) := by
    obtain ⟨-, hlast⟩ := abs_le.mp hword
    have hin : ¬toInt64 (dayOf time) + epochShift > maxInt64 := by
      unfold epochShift maxInt64
      omega
    unfold read
    rw [hfinite]
    exact if_neg hin
  have hwords := read_in_words hfinite
  rw [hread] at hwords
  generalize toInt64 (dayOf time) = days at *
  generalize ofDay time = ofDay at *
  have hpos := month_pos days
  obtain ⟨⟨-, hmonth⟩, -⟩ := dateOfDays_valid days
  have hhours : (momentOf days ofDay).hours = ofDay / 3600000 := Nat.mod_eq_of_lt (by omega)
  have hmonths : (momentOf days ofDay).month + 1 = (dateOfDays days).month := Nat.sub_add_cancel hpos
  refine ⟨momentOf days ofDay, days, days * 86400000 + ofDay, hread, hwords, ?_, rfl, by omega,
    Nat.mod_lt _ (by decide), Nat.mod_lt _ (by decide), Nat.mod_lt _ (by decide), ?_, hsum, ?_⟩
  · rw [hmonths]
    rfl
  · rw [hhours]
    show days * 86400000 + (ofDay / 3600000 : Nat) * 3600000 + (ofDay / 60000 % 60 : Nat) * 60000
      + (ofDay / 1000 % 60 : Nat) * 1000 + (ofDay % 1000 : Nat) = days * 86400000 + ofDay
    omega
  · rw [hhours, hsum]
    constructor
    · rintro ⟨-, hfloor⟩ hovershoots
      rw [if_pos hovershoots] at hfloor
      refine hovershoots.2.1 (le_antisymm (Int.floor_le _) ?_)
      rw [← hfloor]
      exact Int.le_ceil _
    · intro hnot
      exact ⟨by have hlt := hright hnot; omega, if_neg hnot⟩

/-- Less than a hundred-millionth of a millisecond before the epoch it is hour twenty-four of the day before. -/
theorem read_denotes_of_eve : ⌊value (Float.ofBits 0xbe40000000000000)⌋ = -1 ∧
    Overshoots (value (Float.ofBits 0xbe40000000000000)) ∧
    ∃ (moment : Moment) (days : ℤ), read (Float.ofBits 0xbe40000000000000) = .moment moment ∧
      moment.hours = 24 ∧ dateOfDays days = ⟨1969, 12, 31⟩ ∧
      days * 86400000 + moment.hours * 3600000 + moment.minutes * 60000 + moment.seconds * 1000
        + moment.milliseconds = 0 := by
  have hunpack : (Float.ofBits 0xbe40000000000000).toModel.unpack
      = .finite .negative (2 ^ 52) (-79) (by decide) := rfl
  have hvalue : value (Float.ofBits 0xbe40000000000000) = -1 / 134217728 := by
    rw [value_finite hunpack]
    show -((2 ^ 52 : Nat) * 2 ^ (-79 : ℤ) : ℚ) = _
    norm_num
  have hread : read (Float.ofBits 0xbe40000000000000) = .moment ⟨1969, 11, 31, 3, 24, 0, 0, 0⟩ := by decide +kernel
  have hfinite : (Float.ofBits 0xbe40000000000000).isFinite = true := rfl
  obtain ⟨moment, days, instant, hmoment, -, hdate, -, -, -, -, -, hsum, hinstant, -⟩ :=
    read_denotes hfinite (by rw [hvalue]; decide +kernel)
  have hovershoots : Overshoots (value (Float.ofBits 0xbe40000000000000)) := by
    rw [hvalue]
    decide +kernel
  rw [if_pos hovershoots, hvalue] at hinstant
  rw [hread] at hmoment
  cases hmoment
  refine ⟨by rw [hvalue]; decide +kernel, hovershoots, _, days, hread, rfl, hdate, ?_⟩
  rw [hsum, hinstant]
  decide +kernel

end LiveTemplate.Calendar
