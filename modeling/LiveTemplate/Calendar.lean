import LiveTemplate.Number.Exact
/-!
# Civil time

The Gregorian calendar, extended without end in both directions, over day counts from the first
of January 1970.  Years are reckoned from the first of March, so that the leap day is the last
of its year; an era is four hundred such years and always has `146097` days.

Times are doubles: milliseconds since the beginning of 1970, universal time.  The day is the
rounded-down quotient by the length of a day; the rest of the day is what remains, without its
fraction.  Day counts are held in signed words of sixty-four bits, and a time so late that the
count of days cannot be moved to the first of March of year zero has no date.
-/

set_option autoImplicit false

namespace LiveTemplate.Calendar

/-- A date: the month counts from one to twelve, the day from one. -/
structure Date where
  year : Int
  month : Nat
  day : Nat
deriving Repr, DecidableEq

/-- The days of an era. -/
def daysPerEra : Int := 146097

/-- The days from the first of March of year zero to the first of January 1970. -/
def epochShift : Int := 719468

/-- The date of a day count. -/
def dateOfDays (days : Int) : Date :=
  let shifted := days + epochShift
  let era := shifted.fdiv daysPerEra
  let dayOfEra := (shifted.fmod daysPerEra).toNat
  let yearOfEra := (dayOfEra - dayOfEra / 1460 + dayOfEra / 36524 - dayOfEra / 146096) / 365
  let dayOfYear := dayOfEra - (365 * yearOfEra + yearOfEra / 4 - yearOfEra / 100)
  let monthFromMarch := (5 * dayOfYear + 2) / 153
  let month := if monthFromMarch < 10 then monthFromMarch + 3 else monthFromMarch - 9
  { year := yearOfEra + era * 400 + (if month ≤ 2 then 1 else 0)
    month := month
    day := dayOfYear - (153 * monthFromMarch + 2) / 5 + 1 }

/-- The day of the week of a day count, from Sunday as zero. -/
def weekDay (days : Int) : Nat := ((days + 4).fmod 7).toNat

/-- A point in time, broken down. -/
structure Moment where
  year : Int
  /-- The month, January being zero. -/
  month : Nat
  date : Nat
  /-- The day of the week, Sunday being zero. -/
  weekDay : Nat
  hours : Nat
  minutes : Nat
  seconds : Nat
  milliseconds : Nat
deriving Repr, DecidableEq

/-- The moment at a day count and a number of milliseconds of that day.  A day has hours beyond
the twenty-third only where doubles are too far apart to tell one day from the next; they are
held in an unsigned word of thirty-two bits. -/
def momentOf (days : Int) (ofDay : Nat) : Moment :=
  let date := dateOfDays days
  { year := date.year
    month := date.month - 1
    date := date.day
    weekDay := weekDay days
    hours := ofDay / 3600000 % 4294967296
    minutes := ofDay / 60000 % 60
    seconds := ofDay / 1000 % 60
    milliseconds := ofDay % 1000 }

/-- The milliseconds of a day. -/
def dayLength : Float := 86400000.0

/-- The day of a time, as an integral double. -/
def dayOf (time : Float) : Float := Number.floor (time / dayLength)

/-- The whole milliseconds of the day at a time. -/
def ofDay (time : Float) : Nat :=
  (Number.clampInt 0 18446744073709551615 (time - dayOf time * dayLength)).toNat

/-- What a time reads as. -/
inductive Reading where
  /-- The time is not finite. -/
  | timeless
  /-- The count of days, once moved, leaves its word. -/
  | tooLate
  | moment (value : Moment)
deriving Repr, DecidableEq

/-- Read a time. -/
def read (time : Float) : Reading :=
  if !time.isFinite then .timeless
  else
    let days := Number.toInt64 (dayOf time)
    if days + epochShift > Number.maxInt64 then .tooLate else .moment (momentOf days (ofDay time))

end LiveTemplate.Calendar
