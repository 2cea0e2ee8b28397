import LiveTemplate.Library.Call
import LiveTemplate.Operator.Selection
/-!
# The library in machine words

The integers of the model have no bounds; those of a machine have, and a sum, a difference or a product
that leaves its word is an error there.  So the arithmetic of the library is done once more here, each
result of a step being held in a signed word of sixty-four bits, or there is no result at all.

The dates come out the same, but for a day count so late that it cannot be moved to the first of March
of year zero.  This is the one step that can leave its word, and it is the fault of the model.  Positions
in texts and arrays never do: only a negative one is added to, and only the length.
-/

set_option autoImplicit false

namespace LiveTemplate

open Integer (checked)

namespace Number

/-- The number can be held in a signed word of sixty-four bits. -/
def InWord (n : Int) : Prop := minInt64 ≤ n ∧ n ≤ maxInt64

instance (n : Int) : Decidable (InWord n) := inferInstanceAs (Decidable (_ ∧ _))

theorem inWord_toInt64 (x : Float) : InWord (toInt64 x) := by
  unfold toInt64 clampInt
  split
  · decide
  · split <;> decide
  · exact ⟨Int.le_max_left .., Int.max_le.mpr ⟨by decide, Int.min_le_left ..⟩⟩

end Number

open Number (InWord)

/-- A step that has a result goes on.  Stated for any step, so that nobody is tempted to compute with
the bounds of a word. -/
theorem bind_some {α β : Type} {step : Option α} {a : α} (h : step = some a) (next : α → Option β) :
    (step >>= next) = next a := by
  rw [h]
  rfl

namespace Integer

theorem checked_some {n : Int} (h : InWord n) : checked n = some n := if_pos h

theorem checked_none {n : Int} (h : ¬InWord n) : checked n = none := if_neg h

/-- Small numbers can be held in a word. -/
theorem checked_small {n : Int} (hlow : -1000000 ≤ n) (hhigh : n ≤ 1000000) : checked n = some n := by
  refine checked_some ?_
  unfold InWord Number.minInt64 Number.maxInt64
  omega

theorem checked_bind {α : Type} {n : Int} (hlow : -1000000 ≤ n) (hhigh : n ≤ 1000000)
    (next : Int → Option α) : (checked n >>= next) = next n := bind_some (checked_small hlow hhigh) next

end Integer

open Integer (checked_some checked_none checked_small checked_bind)

namespace Calendar

/-! ## Dates -/

def yearOfEraInWords (dayOfEra : Int) : Option Int := do
  let kept ← checked (dayOfEra - dayOfEra / 1460)
  let kept ← checked (kept + dayOfEra / 36524)
  let kept ← checked (kept - dayOfEra / 146096)
  return kept / 365

def dayOfYearInWords (dayOfEra yearOfEra : Int) : Option Int := do
  let days ← checked (365 * yearOfEra)
  let days ← checked (days + yearOfEra / 4)
  let days ← checked (days - yearOfEra / 100)
  checked (dayOfEra - days)

def monthFromMarchInWords (dayOfYear : Int) : Option Int := do
  let fifths ← checked (5 * dayOfYear)
  let fifths ← checked (fifths + 2)
  return fifths / 153

def dayOfMonthInWords (dayOfYear monthFromMarch : Int) : Option Int := do
  let days ← checked (153 * monthFromMarch)
  let days ← checked (days + 2)
  let day ← checked (dayOfYear - days / 5)
  checked (day + 1)

/-- The date of a day count that has been moved to the first of March of year zero. -/
def dateOfMovedInWords (moved : Int) : Option Date := do
  let dayOfEra := moved.fmod daysPerEra
  let yearOfEra ← yearOfEraInWords dayOfEra
  let dayOfYear ← dayOfYearInWords dayOfEra yearOfEra
  let monthFromMarch ← monthFromMarchInWords dayOfYear
  let day ← dayOfMonthInWords dayOfYear monthFromMarch
  let month ← checked (if monthFromMarch < 10 then monthFromMarch + 3 else monthFromMarch - 9)
  let firstYear ← checked (moved.fdiv daysPerEra * 400)
  let year ← checked (yearOfEra + firstYear)
  let year ← checked (year + if month ≤ 2 then 1 else 0)
  return ⟨year, month.toNat, day.toNat⟩

/-- The date of a day count, if no step leaves its word. -/
def dateInWords (days : Int) : Option Date := do
  let moved ← checked (days + epochShift)
  dateOfMovedInWords moved

/-- The moment at a day count, if no step leaves its word.  The month is counted from zero in a word
without a sign. -/
def momentInWords (days : Int) (ofDay : Nat) : Option Moment := do
  let date ← dateInWords days
  let month ← if 0 < date.month then some (date.month - 1) else none
  let fromSunday ← checked (days + 4)
  return { momentOf days ofDay with
    year := date.year, month := month, date := date.day, weekDay := (fromSunday.fmod 7).toNat }

variable {dayOfEra yearOfEra dayOfYear monthFromMarch : Nat}

theorem yearOfEra_in_words (h : dayOfEra < 146097) :
    yearOfEraInWords dayOfEra = some
      ((dayOfEra - dayOfEra / 1460 + dayOfEra / 36524 - dayOfEra / 146096) / 365 : Nat) := by
  unfold yearOfEraInWords
  simp (disch := omega) only [checked_bind, Option.pure_def]
  exact congrArg some (by omega)

/-- A year of an era begins no later than the day that is in it. -/
theorem year_begins (h : dayOfEra < 146097)
    (hyear : yearOfEra = (dayOfEra - dayOfEra / 1460 + dayOfEra / 36524 - dayOfEra / 146096) / 365) :
    yearOfEra < 400 ∧ 365 * yearOfEra + yearOfEra / 4 - yearOfEra / 100 ≤ dayOfEra := by
  obtain rfl | hlast : dayOfEra = 146096 ∨ dayOfEra < 146096 := by omega
  · omega
  · have hno : dayOfEra / 146096 = 0 := Nat.div_eq_of_lt hlast
    have hcentury : dayOfEra / 36524 ≤ 3 := by omega
    have hleap : dayOfEra / 36524 ≤ dayOfEra / 1460 := by omega
    -- each century before the day has its hundred years
    have hhundreds : dayOfEra / 36524 ≤ yearOfEra / 100 := by omega
    have hfours : yearOfEra / 4 ≤ dayOfEra / 1460 := by omega
    omega

theorem dayOfYear_in_words (hyear : yearOfEra < 400) (h : dayOfEra < 146097)
    (hbegins : 365 * yearOfEra + yearOfEra / 4 - yearOfEra / 100 ≤ dayOfEra) :
    dayOfYearInWords dayOfEra yearOfEra
      = some (dayOfEra - (365 * yearOfEra + yearOfEra / 4 - yearOfEra / 100) : Nat) := by
  unfold dayOfYearInWords
  simp (disch := omega) only [checked_bind]
  refine (checked_small ?_ ?_).trans (congrArg some ?_) <;> omega

theorem monthFromMarch_in_words (h : dayOfYear < 146097) :
    monthFromMarchInWords dayOfYear = some ((5 * dayOfYear + 2) / 153 : Nat) := by
  unfold monthFromMarchInWords
  simp (disch := omega) only [checked_bind, Option.pure_def]
  exact congrArg some (by omega)

theorem dayOfMonth_in_words (h : dayOfYear < 146097)
    (hmonth : monthFromMarch = (5 * dayOfYear + 2) / 153) :
    dayOfMonthInWords dayOfYear monthFromMarch
      = some (dayOfYear - (153 * monthFromMarch + 2) / 5 + 1 : Nat) := by
  unfold dayOfMonthInWords
  simp (disch := omega) only [checked_bind]
  refine (checked_small ?_ ?_).trans (congrArg some ?_) <;> omega

theorem dateOfMoved_in_words {days : Int} (h : InWord (days + epochShift)) :
    dateOfMovedInWords (days + epochShift) = some (dateOfDays days) := by
  unfold dateOfMovedInWords dateOfDays
  generalize days + epochShift = moved at h
  have hera (year : Int) (hlow : 0 ≤ year) (hhigh : year ≤ 400) :
      InWord (year + moved.fdiv daysPerEra * 400) := by
    rw [Int.fdiv_eq_ediv_of_nonneg _ (by decide)]
    unfold InWord Number.minInt64 Number.maxInt64 daysPerEra at *
    omega
  obtain ⟨dayOfEra, hday, hlt⟩ :
      ∃ dayOfEra : Nat, moved.fmod daysPerEra = dayOfEra ∧ dayOfEra < 146097 := by
    rw [Int.fmod_eq_emod_of_nonneg _ (by decide)]
    unfold daysPerEra
    exact ⟨(moved % 146097).toNat, by omega, by omega⟩
  simp only [hday, Int.toNat_natCast]
  rw [bind_some (yearOfEra_in_words hlt)]
  generalize hyear : (dayOfEra - dayOfEra / 1460 + dayOfEra / 36524 - dayOfEra / 146096) / 365 = yearOfEra
  obtain ⟨hyears, hbegins⟩ := year_begins hlt hyear.symm
  rw [bind_some (dayOfYear_in_words hyears hlt hbegins)]
  generalize hdayOfYear : dayOfEra - (365 * yearOfEra + yearOfEra / 4 - yearOfEra / 100) = dayOfYear
  have hltYear : dayOfYear < 146097 := by omega
  rw [bind_some (monthFromMarch_in_words hltYear)]
  generalize hmonth : (5 * dayOfYear + 2) / 153 = monthFromMarch
  rw [bind_some (dayOfMonth_in_words hltYear hmonth.symm)]
  have hmonthOfYear : (if (monthFromMarch : Int) < 10 then (monthFromMarch : Int) + 3
      else monthFromMarch - 9) = (if monthFromMarch < 10 then monthFromMarch + 3 else monthFromMarch - 9 : Nat) := by
    split <;> split <;> omega
  rw [hmonthOfYear]
  generalize hmonths : (if monthFromMarch < 10 then monthFromMarch + 3 else monthFromMarch - 9) = month
  have hmonths : month ≤ 12 := by split at hmonths <;> omega
  have hfirst := hera 0 (by decide) (by decide)
  rw [Int.zero_add] at hfirst
  rw [checked_bind (by omega) (by omega), bind_some (checked_some hfirst),
    bind_some (checked_some (hera yearOfEra (by omega) (by omega)))]
  have hyearOfMonth : InWord (yearOfEra + moved.fdiv daysPerEra * 400 + if (month : Int) ≤ 2 then 1 else 0) := by
    split
    · have hnext := hera (yearOfEra + 1) (by omega) (by omega)
      rwa [Int.add_right_comm] at hnext
    · rw [Int.add_zero]
      exact hera yearOfEra (by omega) (by omega)
  rw [bind_some (checked_some hyearOfMonth)]
  have hearly : ((month : Int) ≤ 2) = (month ≤ 2) := propext (by omega)
  simp only [Option.pure_def, Int.toNat_natCast, hearly]

/-- **Dates in machine words.**  They are the dates, and there is none only if the day count cannot be
moved. -/
theorem date_in_words (days : Int) :
    dateInWords days = if InWord (days + epochShift) then some (dateOfDays days) else none := by
  unfold dateInWords
  by_cases h : InWord (days + epochShift)
  · rw [if_pos h, bind_some (checked_some h), dateOfMoved_in_words h]
  · rw [if_neg h, checked_none h]
    rfl

theorem month_pos (days : Int) : 0 < (dateOfDays days).month := by
  unfold dateOfDays
  dsimp only
  split <;> omega

/-- A day count that can be moved to year zero has a moment, and its weekday stands beside its date. -/
theorem moment_of_days (days : Int) (ofDay : Nat) : momentInWords days ofDay
    = if InWord (days + epochShift) ∧ InWord (days + 4) then some (momentOf days ofDay) else none := by
  unfold momentInWords
  rw [date_in_words]
  by_cases hmoved : InWord (days + epochShift)
  · rw [if_pos hmoved, bind_some rfl, if_pos (month_pos days), bind_some rfl]
    by_cases hweek : InWord (days + 4)
    · rw [if_pos ⟨hmoved, hweek⟩]
      exact bind_some (checked_some hweek) _
    · rw [if_neg fun h => hweek h.2, checked_none hweek]
      rfl
  · rw [if_neg hmoved, if_neg fun h => hmoved h.1]
    rfl

/-- **Moments in machine words.**  They are the moments, and there is none only if the day count cannot be
moved. -/
theorem moment_in_words {days : Int} (hdays : InWord days) (ofDay : Nat) :
    momentInWords days ofDay
      = if days + epochShift ≤ Number.maxInt64 then some (momentOf days ofDay) else none := by
  have hmoved : InWord (days + epochShift) ∧ InWord (days + 4) ↔ days + epochShift ≤ Number.maxInt64 := by
    unfold InWord Number.minInt64 Number.maxInt64 epochShift at *
    omega
  rw [moment_of_days]
  simp only [hmoved]

/-- Times are read in machine words as they are in the model, and the time that the model finds too late
is the one that leaves its word. -/
theorem read_in_words {time : Float} (hfinite : time.isFinite = true) :
    momentInWords (Number.toInt64 (dayOf time)) (ofDay time) = match read time with
      | .moment moment => some moment
      | _ => none := by
  rw [moment_in_words (Number.inWord_toInt64 _)]
  unfold read
  simp only [hfinite, Bool.not_true, Bool.false_eq_true, if_false]
  by_cases h : Number.toInt64 (dayOf time) + epochShift ≤ Number.maxInt64
  · rw [if_pos h, if_neg (by omega)]
  · rw [if_neg h, if_pos (by omega)]

theorem read_tooLate {time : Float} :
    read time = .tooLate ↔
      time.isFinite = true ∧ Number.maxInt64 < Number.toInt64 (dayOf time) + epochShift := by
  unfold read
  cases time.isFinite with
  | false => simp
  | true =>
    simp only [Bool.not_true, Bool.false_eq_true, if_false, true_and]
    split <;> simp <;> omega

end Calendar

/-! ## Positions -/

namespace Library

/-- A position in a sequence, counted from the end if it is negative, if no step leaves its word. -/
def positionInWords (position : Int) (length : Nat) : Option Int :=
  if position < 0 then checked (position + length) else some position

/-- **Positions in machine words** never leave them, as long as the length of the sequence does not. -/
theorem position_in_words {position : Int} {length : Nat} (hposition : InWord position)
    (hlength : InWord length) :
    positionInWords position length = some (if position < 0 then position + length else position) := by
  unfold positionInWords
  split
  · next hneg =>
    refine checked_some ?_
    unfold InWord at *
    omega
  · rfl

/-- A bound of a slice. -/
def clampIndexInWords (x : Float) (length : Nat) : Option Nat := do
  let position ← positionInWords (Number.toInt64 x) length
  return (max 0 (min position length)).toNat

/-- The character at a position. -/
def charAtInWords (s : String) (x : Float) : Option String := do
  let position ← positionInWords (Number.toInt64 x) s.toList.length
  if position < 0 then return ""
  return (s.toList[position.toNat]?).elim "" String.singleton

/-- The element of an array that a number selects. -/
def selectItemInWords (store : Store) (v : Value) (x : Float) : Option Value := do
  let position ← positionInWords (Number.toInt64 (Number.round x)) (v.size store)
  if 0 ≤ position ∧ position < v.size store then return v.item store position.toNat else return .null

variable {x : Float} {length : Nat}

theorem clampIndex_in_words (hlength : InWord length) :
    clampIndexInWords x length = some (clampIndex x length) :=
  bind_some (position_in_words (Number.inWord_toInt64 x) hlength) _

/-- A bound of a slice lies in the sequence. -/
theorem clampIndex_le (x : Float) (length : Nat) : clampIndex x length ≤ length := by
  unfold clampIndex
  dsimp only
  omega

theorem charAt_in_words {s : String} (hlength : InWord s.toList.length) :
    charAtInWords s x = some (charAt s x) := by
  unfold charAtInWords charAt
  rw [bind_some (position_in_words (Number.inWord_toInt64 x) hlength)]
  dsimp only
  generalize (if Number.toInt64 x < 0 then _ else _ : Int) = position
  split
  · rfl
  · cases s.toList[position.toNat]? <;> rfl

theorem selectItem_in_words {store : Store} {v : Value} (hlength : InWord (v.size store)) :
    selectItemInWords store v x = some (v.selectItem store x) := by
  unfold selectItemInWords Value.selectItem
  rw [bind_some (position_in_words (Number.inWord_toInt64 _) hlength)]
  dsimp only
  generalize (if Number.toInt64 (Number.round x) < 0 then _ else _ : Int) = position
  split <;> rfl

end Library

/-- The library computes in machine words what it computes in the model, if the lengths of its texts and
arrays are words. -/
structure Library.KeepsWords (store : Store) : Prop where
  moment : ∀ time : Float, time.isFinite = true →
    Calendar.momentInWords (Number.toInt64 (Calendar.dayOf time)) (Calendar.ofDay time)
      = match Calendar.read time with
        | .moment moment => some moment
        | _ => none
  /-- The time that has no moment, though it is finite, is one whose day count cannot be moved. -/
  late : ∀ time : Float, Calendar.read time = .tooLate ↔ time.isFinite = true ∧
    Number.maxInt64 < Number.toInt64 (Calendar.dayOf time) + Calendar.epochShift
  bound : ∀ (x : Float) (length : Nat), InWord length →
    Library.clampIndexInWords x length = some (Library.clampIndex x length) ∧
      Library.clampIndex x length ≤ length
  character : ∀ (s : String) (x : Float), InWord s.toList.length →
    Library.charAtInWords s x = some (Library.charAt s x)
  element : ∀ (v : Value) (x : Float), InWord (v.size store) →
    Library.selectItemInWords store v x = some (v.selectItem store x)

/-- **No integer of the library leaves its word**, but for the day count of a time that is too late. -/
theorem Library.keepsWords (store : Store) : KeepsWords store where
  moment _ h := Calendar.read_in_words h
  late _ := Calendar.read_tooLate
  bound x length h := ⟨clampIndex_in_words h, clampIndex_le x length⟩
  character _ _ h := charAt_in_words h
  element _ _ h := selectItem_in_words h

end LiveTemplate
