import LiveTemplate.Proofs.Library.Words
import Mathlib
/-!
# The Gregorian calendar

A date is valid if it has a month of the calendar and a day of that month, and each valid date has a day
after it: both are said here with the lengths of the months and the rule for leap years, as the calendar
has them.  The date of a day count is reckoned in another way, from the first of March.  What ties the two
together is where that reckoning puts a day: `dateOfDays_march` finds the March that it follows, and
`marchDate_month` the month of that year.

Day counts have no bounds here.  Those of a machine word have the same dates, as far as the count can be
moved to year zero (`date_in_words`).
-/

set_option autoImplicit false

namespace LiveTemplate.Calendar

open Number (InWord)

/-! ## The calendar -/

/-- Every fourth year has a leap day, but of those that end a century only every fourth. -/
def IsLeap (year : Int) : Prop := year % 4 = 0 ∧ (year % 100 = 0 → year % 400 = 0)

instance (year : Int) : Decidable (IsLeap year) := inferInstanceAs (Decidable (_ ∧ _))

/-- The days of a month. -/
def monthLength (year : Int) : Nat → Nat
  | 2 => if IsLeap year then 29 else 28
  | 4 | 6 | 9 | 11 => 30
  | _ => 31

namespace Date

/-- There is such a date. -/
structure Valid (date : Date) : Prop where
  month : 1 ≤ date.month ∧ date.month ≤ 12
  day : 1 ≤ date.day ∧ date.day ≤ monthLength date.year date.month

/-- The day after. -/
def next (date : Date) : Date :=
  if date.day < monthLength date.year date.month then { date with day := date.day + 1 }
  else if date.month < 12 then { date with month := date.month + 1, day := 1 }
  else { year := date.year + 1, month := 1, day := 1 }

/-- Year before month before day. -/
def key (date : Date) : Int ×ₗ (Nat ×ₗ Nat) := toLex (date.year, toLex (date.month, date.day))

theorem key_injective : Function.Injective key := by
  intro first second h
  cases first
  cases second
  simp only [key, EmbeddingLike.apply_eq_iff_eq, Prod.mk.injEq] at h
  obtain ⟨rfl, rfl, rfl⟩ := h
  rfl

/-- Dates come one after the other. -/
noncomputable instance : PartialOrder Date := PartialOrder.lift key key_injective

theorem lt_iff {first second : Date} : first < second ↔
    first.year < second.year ∨ first.year = second.year ∧
      (first.month < second.month ∨ first.month = second.month ∧ first.day < second.day) := by
  show first.key < second.key ↔ _
  simp only [key, Prod.Lex.toLex_lt_toLex]

theorem lt_next (date : Date) : date < date.next := by
  rw [lt_iff]
  unfold next
  split
  · simp
  · split <;> simp

end Date

/-! ## Years that begin in March -/

/-- The days from the first of March of year zero to the first of March of a year. -/
def marchStart (year : Int) : Int := 365 * year + year / 4 - year / 100 + year / 400

/-- The days from the first of March of a year to the next.  The leap day is the last of them. -/
def marchLength (year : Int) : Nat := if IsLeap (year + 1) then 366 else 365

theorem marchStart_succ (year : Int) : marchStart (year + 1) = marchStart year + marchLength year := by
  unfold marchStart marchLength
  by_cases h : IsLeap (year + 1)
  · rw [if_pos h]
    unfold IsLeap at h
    omega
  · rw [if_neg h]
    unfold IsLeap at h
    omega

theorem marchLength_pos (year : Int) : 0 < marchLength year := by
  unfold marchLength
  split <;> decide

theorem marchLength_le (year : Int) : marchLength year ≤ 366 := by
  unfold marchLength
  split <;> decide

theorem marchStart_strictMono : StrictMono marchStart := by
  refine strictMono_int_of_lt_succ fun year => ?_
  have hpos := marchLength_pos year
  rw [marchStart_succ]
  omega

/-- All eras are alike. -/
theorem marchStart_era (era year : Int) : marchStart (year + era * 400) = 146097 * era + marchStart year := by
  unfold marchStart
  omega

theorem marchStart_natCast (year : Nat) :
    marchStart year = (365 * year + year / 4 - year / 100 + year / 400 : Nat) := by
  unfold marchStart
  omega

variable {dayOfEra yearOfEra : Nat}

/-- A year of an era ends after the day that is in it. -/
theorem year_ends (h : dayOfEra < 146097)
    (hyear : yearOfEra = (dayOfEra - dayOfEra / 1460 + dayOfEra / 36524 - dayOfEra / 146096) / 365) :
    dayOfEra < 365 * (yearOfEra + 1) + (yearOfEra + 1) / 4 - (yearOfEra + 1) / 100 + (yearOfEra + 1) / 400 := by
  obtain rfl | hlast : dayOfEra = 146096 ∨ dayOfEra < 146096 := by omega
  · omega
  · have hno : dayOfEra / 146096 = 0 := Nat.div_eq_of_lt hlast
    have hfours : dayOfEra / 1460 ≤ (yearOfEra + 1) / 4 := by omega
    obtain ⟨century, hcentury, hends⟩ : ∃ century, dayOfEra / 36524 = century ∧
        dayOfEra < 36524 * (century + 1) := ⟨_, rfl, by omega⟩
    have hyears : 100 * century ≤ yearOfEra ∧ yearOfEra < 100 * (century + 1) := by omega
    -- only the year that ends a century may be a day shorter than the fours say
    obtain hin | hturn : yearOfEra + 1 < 100 * (century + 1) ∨ yearOfEra + 1 = 100 * (century + 1) := by omega
    · have hsame : (yearOfEra + 1) / 100 = century := by omega
      omega
    · omega

/-- The date of a day of a year that begins in March. -/
def marchDate (year : Int) (dayOfYear : Nat) : Date :=
  let monthFromMarch := (5 * dayOfYear + 2) / 153
  let month := if monthFromMarch < 10 then monthFromMarch + 3 else monthFromMarch - 9
  { year := year + (if month ≤ 2 then 1 else 0)
    month := month
    day := dayOfYear - (153 * monthFromMarch + 2) / 5 + 1 }

/-- A day is a day of some year that begins in March, and its date is reckoned in that year. -/
theorem dateOfDays_march (days : Int) : ∃ (year : Int) (dayOfYear : Nat),
    days + epochShift = marchStart year + dayOfYear ∧ dayOfYear < marchLength year ∧
      dateOfDays days = marchDate year dayOfYear := by
  unfold dateOfDays
  simp only [Int.fmod_eq_emod_of_nonneg _ (show 0 ≤ daysPerEra by decide),
    Int.fdiv_eq_ediv_of_nonneg _ (show 0 ≤ daysPerEra by decide)]
  generalize days + epochShift = moved
  obtain ⟨era, dayOfEra, hera, hday, hlt, hmoved⟩ : ∃ (era : Int) (dayOfEra : Nat),
      moved / daysPerEra = era ∧ moved % daysPerEra = dayOfEra ∧ dayOfEra < 146097 ∧
        moved = 146097 * era + dayOfEra := by
    unfold daysPerEra
    exact ⟨moved / 146097, (moved % 146097).toNat, rfl, by omega, by omega, by omega⟩
  simp only [hera, hday, Int.toNat_natCast]
  generalize hyear : (dayOfEra - dayOfEra / 1460 + dayOfEra / 36524 - dayOfEra / 146096) / 365 = yearOfEra
  obtain ⟨hyears, hbegins⟩ := year_begins hlt hyear.symm
  have hstart := marchStart_natCast yearOfEra
  rw [Nat.div_eq_of_lt hyears, Nat.add_zero] at hstart
  have hends := Int.ofNat_lt.mpr (year_ends hlt hyear.symm)
  rw [← marchStart_natCast, Int.natCast_succ, marchStart_succ, hstart] at hends
  have hlength : marchLength (yearOfEra + era * 400) = marchLength yearOfEra := by
    have hsucc := marchStart_succ (yearOfEra + era * 400)
    rw [Int.add_right_comm, marchStart_era, marchStart_era, marchStart_succ] at hsucc
    omega
  refine ⟨yearOfEra + era * 400, dayOfEra - (365 * yearOfEra + yearOfEra / 4 - yearOfEra / 100), ?_, ?_, rfl⟩
  · rw [marchStart_era]
    omega
  · rw [hlength]
    omega

variable {days year : Int} {dayOfYear : Nat}

/-- The year of `dateOfDays_march` is the only one. -/
theorem dateOfDays_eq (h : days + epochShift = marchStart year + dayOfYear)
    (hlt : dayOfYear < marchLength year) : dateOfDays days = marchDate year dayOfYear := by
  obtain ⟨year', dayOfYear', h', hlt', hdate⟩ := dateOfDays_march days
  have hyear : year' = year := by
    have hends := marchStart_succ year
    have hends' := marchStart_succ year'
    have hle : year < year' + 1 := marchStart_strictMono.lt_iff_lt.mp (by omega)
    have hge : year' < year + 1 := marchStart_strictMono.lt_iff_lt.mp (by omega)
    omega
  subst hyear
  obtain rfl : dayOfYear' = dayOfYear := by omega
  exact hdate

/-! ## Months of such a year -/

/-- The month of the calendar, from the months after March. -/
def monthOf (fromMarch : Nat) : Nat := if fromMarch < 10 then fromMarch + 3 else fromMarch - 9

/-- January and February belong to the next year of the calendar. -/
def yearOf (year : Int) (fromMarch : Nat) : Int := if fromMarch < 10 then year else year + 1

/-- The days from the first of March to the first of a month. -/
def monthStart (fromMarch : Nat) : Nat := (153 * fromMarch + 2) / 5

/-- The length of a month, in the year of the calendar that has it. -/
def lengthFromMarch (year : Int) (fromMarch : Nat) : Nat := monthLength (yearOf year fromMarch) (monthOf fromMarch)

variable {fromMarch day : Nat}

theorem monthStart_succ (year : Int) (h : fromMarch < 11) :
    monthStart (fromMarch + 1) = monthStart fromMarch + lengthFromMarch year fromMarch := by
  interval_cases fromMarch <;> rfl

theorem monthStart_last (year : Int) : marchLength year = monthStart 11 + lengthFromMarch year 11 := by
  show (if IsLeap (year + 1) then 366 else 365) = 337 + (if IsLeap (year + 1) then 29 else 28)
  split <;> rfl

theorem lengthFromMarch_pos (year : Int) (h : fromMarch ≤ 11) : 0 < lengthFromMarch year fromMarch := by
  rcases h.lt_or_eq with hlt | rfl
  · have hsucc := monthStart_succ year hlt
    unfold monthStart at hsucc
    omega
  · show 0 < if IsLeap (year + 1) then 29 else 28
    split <;> decide

/-- A day of a month is counted from the first of March. -/
theorem dayOfYear_lt (hmonth : fromMarch ≤ 11) (hday : day < lengthFromMarch year fromMarch) :
    monthStart fromMarch + day < marchLength year := by
  rw [monthStart_last]
  rcases hmonth.lt_or_eq with hlt | rfl
  · have hsucc := monthStart_succ year hlt
    unfold monthStart at *
    omega
  · omega

/-- Each day of the year is the day of a month. -/
theorem exists_month (h : dayOfYear < marchLength year) : ∃ fromMarch day,
    fromMarch ≤ 11 ∧ day < lengthFromMarch year fromMarch ∧ dayOfYear = monthStart fromMarch + day := by
  have hle := marchLength_le year
  obtain ⟨fromMarch, hfrom⟩ : ∃ fromMarch, fromMarch = (5 * dayOfYear + 2) / 153 := ⟨_, rfl⟩
  have hbegins : monthStart fromMarch ≤ dayOfYear := by
    unfold monthStart
    omega
  refine ⟨fromMarch, dayOfYear - monthStart fromMarch, by omega, ?_, by omega⟩
  rcases (show fromMarch ≤ 11 by omega).lt_or_eq with hlt | hlast
  · have hsucc := monthStart_succ year hlt
    unfold monthStart at *
    omega
  · rw [monthStart_last, ← hlast] at h
    omega

/-- The date of the day of a month. -/
theorem marchDate_month (hmonth : fromMarch ≤ 11) (hday : day < lengthFromMarch year fromMarch) :
    marchDate year (monthStart fromMarch + day) = ⟨yearOf year fromMarch, monthOf fromMarch, day + 1⟩ := by
  have hfrom : (5 * (monthStart fromMarch + day) + 2) / 153 = fromMarch := by
    rcases hmonth.lt_or_eq with hlt | rfl
    · have hsucc := monthStart_succ year hlt
      unfold monthStart at *
      omega
    · have hle := marchLength_le year
      rw [monthStart_last] at hle
      unfold monthStart at *
      omega
  unfold marchDate
  simp only [hfrom]
  unfold yearOf monthOf monthStart
  split
  · simp
  · simp only [Nat.add_sub_cancel_left, Date.mk.injEq, and_true]
    rw [if_pos (by omega)]

/-- The date of a day count is that of a day of a month. -/
theorem dateOfDays_month (h : days + epochShift = marchStart year + monthStart fromMarch + day)
    (hmonth : fromMarch ≤ 11) (hday : day < lengthFromMarch year fromMarch) :
    dateOfDays days = ⟨yearOf year fromMarch, monthOf fromMarch, day + 1⟩ := by
  rw [← marchDate_month hmonth hday]
  refine dateOfDays_eq ?_ (dayOfYear_lt hmonth hday)
  push_cast
  omega

/-- Each day count is a day of a month. -/
theorem days_month (days : Int) : ∃ (year : Int) (fromMarch day : Nat),
    fromMarch ≤ 11 ∧ day < lengthFromMarch year fromMarch ∧
      days + epochShift = marchStart year + monthStart fromMarch + day := by
  obtain ⟨year, dayOfYear, hdays, hlt, -⟩ := dateOfDays_march days
  obtain ⟨fromMarch, day, hmonth, hday, rfl⟩ := exists_month hlt
  refine ⟨year, fromMarch, day, hmonth, hday, ?_⟩
  push_cast at hdays
  omega

/-! ## The dates of day counts -/

/-- The date of a day count is one of the calendar. -/
theorem dateOfDays_valid (days : Int) : (dateOfDays days).Valid := by
  obtain ⟨year, fromMarch, day, hmonth, hday, hdays⟩ := days_month days
  rw [dateOfDays_month hdays hmonth hday]
  refine ⟨?_, Nat.succ_pos _, hday⟩
  show 1 ≤ monthOf fromMarch ∧ monthOf fromMarch ≤ 12
  unfold monthOf
  split <;> omega

/-- The day after a day that is not the last of its month. -/
theorem next_in_month (h : day + 1 < lengthFromMarch year fromMarch) :
    Date.next ⟨yearOf year fromMarch, monthOf fromMarch, day + 1⟩
      = ⟨yearOf year fromMarch, monthOf fromMarch, day + 1 + 1⟩ := if_pos h

/-- The day after the last day of a month. -/
theorem next_after_month (h : fromMarch < 11) :
    Date.next ⟨yearOf year fromMarch, monthOf fromMarch, lengthFromMarch year fromMarch⟩
      = ⟨yearOf year (fromMarch + 1), monthOf (fromMarch + 1), 1⟩ := by
  refine (if_neg (Nat.lt_irrefl _)).trans ?_
  interval_cases fromMarch <;> rfl

/-- The day after the last of February. -/
theorem next_after_february (year : Int) :
    Date.next ⟨yearOf year 11, monthOf 11, lengthFromMarch year 11⟩
      = ⟨yearOf (year + 1) 0, monthOf 0, 1⟩ := if_neg (Nat.lt_irrefl _)

/-- The date of the next day is the day after. -/
theorem dateOfDays_succ (days : Int) : dateOfDays (days + 1) = (dateOfDays days).next := by
  obtain ⟨year, fromMarch, day, hmonth, hday, hdays⟩ := days_month days
  rw [dateOfDays_month hdays hmonth hday]
  rcases Nat.lt_or_eq_of_le (Nat.succ_le_of_lt hday) with hin | hlast
  · rw [next_in_month hin]
    exact dateOfDays_month (by push_cast; omega) hmonth hin
  · rw [show day + 1 = lengthFromMarch year fromMarch from hlast]
    rcases hmonth.lt_or_eq with hlt | rfl
    · have hsucc := monthStart_succ year hlt
      rw [next_after_month hlt]
      exact dateOfDays_month (by omega) hlt (lengthFromMarch_pos _ hlt)
    · -- the last of February is the last day of its year
      have hsucc := marchStart_succ year
      rw [monthStart_last] at hsucc
      rw [next_after_february]
      refine dateOfDays_month ?_ (Nat.zero_le _) (lengthFromMarch_pos _ (Nat.zero_le _))
      unfold monthStart at *
      omega

theorem dateOfDays_strictMono : StrictMono dateOfDays := by
  refine strictMono_int_of_lt_succ fun days => ?_
  rw [dateOfDays_succ]
  exact Date.lt_next _

/-- Each month of the calendar is a month of a year that begins in March. -/
theorem exists_fromMarch (year : Int) {month : Nat} (hpos : 1 ≤ month) (hle : month ≤ 12) :
    ∃ (start : Int) (fromMarch : Nat), fromMarch ≤ 11 ∧ yearOf start fromMarch = year ∧
      monthOf fromMarch = month := by
  unfold yearOf monthOf
  rcases Nat.lt_or_ge month 3 with hearly | hlate
  · refine ⟨year - 1, month + 9, by omega, ?_, ?_⟩
    · rw [if_neg (by omega)]
      omega
    · rw [if_neg (by omega)]
      omega
  · refine ⟨year, month - 3, by omega, if_pos (by omega), ?_⟩
    rw [if_pos (by omega)]
    omega

/-- Each date of the calendar is the date of a day count. -/
theorem exists_days {date : Date} (h : date.Valid) : ∃ days, dateOfDays days = date := by
  obtain ⟨year, month, day⟩ := date
  obtain ⟨⟨hpos, hle⟩, hfirst, hlast⟩ := h
  obtain ⟨start, fromMarch, hmonth, rfl, rfl⟩ := exists_fromMarch year hpos hle
  obtain ⟨before, rfl⟩ : ∃ before, day = before + 1 := ⟨day - 1, (Nat.sub_add_cancel hfirst).symm⟩
  exact ⟨marchStart start + monthStart fromMarch + before - epochShift,
    dateOfDays_month (by omega) hmonth hlast⟩

/-- The day counts of a stretch of time are those of the dates from the first to the last of it. -/
theorem dateOfDays_bijOn_Icc (first last : Int) : Set.BijOn dateOfDays (Set.Icc first last)
    {date | date.Valid ∧ date ∈ Set.Icc (dateOfDays first) (dateOfDays last)} := by
  refine ⟨?_, dateOfDays_strictMono.injective.injOn, ?_⟩
  · rintro days ⟨hfirst, hlast⟩
    exact ⟨dateOfDays_valid days, dateOfDays_strictMono.monotone hfirst, dateOfDays_strictMono.monotone hlast⟩
  · rintro date ⟨hvalid, hfirst, hlast⟩
    obtain ⟨days, rfl⟩ := exists_days hvalid
    exact ⟨days, ⟨dateOfDays_strictMono.le_iff_le.mp hfirst, dateOfDays_strictMono.le_iff_le.mp hlast⟩, rfl⟩

theorem dateOfDays_bijOn : Set.BijOn dateOfDays Set.univ {date | date.Valid} := by
  refine ⟨fun days _ => dateOfDays_valid days, dateOfDays_strictMono.injective.injOn, ?_⟩
  intro date hvalid
  obtain ⟨days, hdays⟩ := exists_days hvalid
  exact ⟨days, trivial, hdays⟩

theorem weekDay_succ (days : Int) : weekDay (days + 1) = (weekDay days + 1) % 7 := by
  unfold weekDay
  rw [Int.fmod_eq_emod_of_nonneg _ (by decide), Int.fmod_eq_emod_of_nonneg _ (by decide)]
  omega

/-- **The dates are those of the Gregorian calendar**, extended in both directions, for every day count that
can be moved to the first of March of year zero in a machine word, and the weekdays follow one another.
The counts that cannot be moved have no date. -/
theorem dates_gregorian :
    (∀ days, dateInWords days = if InWord (days + epochShift) then some (dateOfDays days) else none) ∧
    (∀ days, (dateOfDays days).Valid) ∧
    dateOfDays 0 = ⟨1970, 1, 1⟩ ∧
    (∀ days, dateOfDays (days + 1) = (dateOfDays days).next) ∧
    Set.BijOn dateOfDays Set.univ {date | date.Valid} ∧
    (∀ first last, Set.BijOn dateOfDays (Set.Icc first last)
      {date | date.Valid ∧ date ∈ Set.Icc (dateOfDays first) (dateOfDays last)}) ∧
    StrictMono dateOfDays ∧
    (∀ days ofDay, momentInWords days ofDay
      = if InWord (days + epochShift) ∧ InWord (days + 4) then some (momentOf days ofDay) else none) ∧
    (∀ days ofDay, (momentOf days ofDay).weekDay = weekDay days) ∧
    ∀ days, weekDay (days + 1) = (weekDay days + 1) % 7 :=
  ⟨date_in_words, dateOfDays_valid, by decide, dateOfDays_succ, dateOfDays_bijOn, dateOfDays_bijOn_Icc,
    dateOfDays_strictMono, moment_of_days, fun _ _ => rfl, weekDay_succ⟩

end LiveTemplate.Calendar
