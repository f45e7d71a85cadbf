import Mathlib.Data.Int.ConditionallyCompleteOrder
import Mathlib.Order.SuccPred.Basic
import Mathlib.Tactic.IntervalCases
import RowFilter.Directory.Time

/-!
# The calendar

Counting days counts the days of the Gregorian calendar: a year starts where the year before it
ends, and a month where the month before it ends. Every number of days stands for a day there is,
and later days are written with greater numbers.
-/

namespace RowFilter.Directory

/-- Every fourth year is a leap year, but of the full centuries only every fourth. -/
def IsLeapYear (year : Int) : Prop :=
  year % 4 = 0 ∧ (year % 100 ≠ 0 ∨ year % 400 = 0)

instance (year : Int) : Decidable (IsLeapYear year) :=
  inferInstanceAs (Decidable (_ ∧ _))

def yearLength (year : Int) : Int :=
  if IsLeapYear year then 366 else 365

def monthLength (year month : Int) : Int :=
  if month = 2 then if IsLeapYear year then 29 else 28
  else if month = 4 ∨ month = 6 ∨ month = 9 ∨ month = 11 then 30
  else 31

/-- The number of days from the start of 1970 to the start of a year, as `yearStart_succ` counts
them. -/
def yearStart (year : Int) : Int :=
  365 * (year - 1970) + (year - 1) / 4 - (year - 1) / 100 + (year - 1) / 400 - 477

/-- The number of days from the start of a year to the start of one of its months. -/
def monthStart (year month : Int) : Int :=
  (367 * month - 362) / 12 - if month ≤ 2 then 0 else if IsLeapYear year then 1 else 2

/-! ## Years and months -/

/-- Leap years repeat with every era. -/
theorem isLeapYear_add_era (year era : Int) : IsLeapYear (year + era * 400) ↔ IsLeapYear year := by
  unfold IsLeapYear
  omega

theorem monthLength_add_era (year era month : Int) :
    monthLength (year + era * 400) month = monthLength year month := by
  simp only [monthLength, isLeapYear_add_era]

/-- A year starts when all days of the one before it are over. -/
theorem yearStart_succ (year : Int) : yearStart (year + 1) = yearStart year + yearLength year := by
  unfold yearStart yearLength
  split
  next hleap =>
    rw [IsLeapYear] at hleap
    omega
  next hleap =>
    rw [IsLeapYear] at hleap
    omega

/-- A later year starts later. -/
theorem yearStart_strictMono : StrictMono yearStart := by
  refine strictMono_int_of_lt_succ fun year => ?_
  rw [yearStart_succ, yearLength]
  split <;> omega

theorem monthStart_one (year : Int) : monthStart year 1 = 0 := by
  simp [monthStart]

theorem monthStart_succ (year : Int) {month : Int} (h : 1 ≤ month) (h' : month ≤ 12) :
    monthStart year (month + 1) = monthStart year month + monthLength year month := by
  by_cases hleap : IsLeapYear year <;> interval_cases month <;>
    simp [monthStart, monthLength, hleap]

/-- A thirteenth month would start with the next year. -/
theorem monthStart_thirteen (year : Int) : monthStart year 13 = yearLength year := by
  by_cases hleap : IsLeapYear year <;> simp [monthStart, yearLength, hleap]

theorem monthStart_mono (year : Int) : Monotone (monthStart year) := by
  intro month month' h
  unfold monthStart
  split <;> omega

theorem monthLength_le (year month : Int) : monthLength year month ≤ 31 := by
  unfold monthLength
  omega

namespace CivilDate

variable {a b date : CivilDate}

/-- The year has such a month, and the month has such a day. -/
structure IsValid (date : CivilDate) : Prop where
  month : 1 ≤ date.month ∧ date.month ≤ 12
  day : 1 ≤ date.day ∧ date.day ≤ monthLength date.year date.month

/-! ## Numbering days -/

/-- The days before a month are counted from March or from January, two months more or ten less. -/
theorem monthFromMarch_eq {month : Int} (h : 1 ≤ month ∧ month ≤ 12) :
    (153 * (if 2 < month then month - 3 else month + 9) + 2) / 5 =
      (367 * month - 362) / 12 + if 2 < month then -61 else 306 := by
  obtain ⟨h, h'⟩ := h
  interval_cases month <;> simp

/-- A day is numbered by the days before its year, those before its month and those before it. -/
theorem toDays_eq (h : 1 ≤ date.month ∧ date.month ≤ 12) :
    date.toDays = yearStart date.year + monthStart date.year date.month + date.day - 1 := by
  unfold toDays yearStart monthStart
  dsimp only
  rw [monthFromMarch_eq h]
  by_cases hmonth : date.month ≤ 2
  · rw [if_pos hmonth, if_neg (by omega), if_pos hmonth]
    omega
  · rw [if_neg hmonth, if_pos (by omega), if_neg hmonth]
    by_cases hleap : IsLeapYear date.year
    · rw [if_pos hleap]
      rw [IsLeapYear] at hleap
      omega
    · rw [if_neg hleap]
      rw [IsLeapYear] at hleap
      omega

/-- No day of a year is before its start. -/
theorem yearStart_le_toDays (h : date.IsValid) : yearStart date.year ≤ date.toDays := by
  have hmonth : monthStart date.year 1 ≤ monthStart date.year date.month :=
    monthStart_mono _ h.month.left
  have hday := h.day
  rw [monthStart_one] at hmonth
  rw [toDays_eq h.month]
  omega

/-- A day is over when the next month starts. -/
theorem toDays_lt (h : date.IsValid) :
    date.toDays < yearStart date.year + monthStart date.year (date.month + 1) := by
  have hday := h.day
  rw [toDays_eq h.month, monthStart_succ _ h.month.left h.month.right]
  omega

/-- No day of a year is at the start of the next one or after it. -/
theorem toDays_lt_yearStart (h : date.IsValid) : date.toDays < yearStart (date.year + 1) := by
  have hmonth : monthStart date.year (date.month + 1) ≤ monthStart date.year 13 :=
    monthStart_mono _ (Int.add_le_add_right h.month.right 1)
  have hdays := toDays_lt h
  rw [monthStart_thirteen] at hmonth
  rw [yearStart_succ]
  omega

/-! ## Counting days

The calendar is shifted to start in March, so that a leap day is the last of its year and an era of
400 years always has the same number of days.
-/

/-- The day of a month counted from March, in a year of an era that starts in March. -/
def ofMarch (era year month day : Int) : CivilDate :=
  let civil := if month < 10 then month + 3 else month - 9
  { year := year + era * 400 + (if civil ≤ 2 then 1 else 0)
    month := civil
    day }

section Shifted

variable {era year month day dayOfYear dayOfEra : Int}

theorem ofMarch_of_lt (h : month < 10) (hmonth : 0 ≤ month) :
    ofMarch era year month day = ⟨year + era * 400, month + 3, day⟩ := by
  simp only [ofMarch]
  rw [if_pos h, if_neg (by omega), Int.add_zero]

theorem ofMarch_of_le (h : 10 ≤ month) (hmonth : month ≤ 11) :
    ofMarch era year month day = ⟨year + 1 + era * 400, month - 9, day⟩ := by
  simp only [ofMarch]
  rw [if_neg (show ¬ month < 10 by omega), if_pos (by omega), Int.add_right_comm]

/-- The number of a day, from its place in an era of years that start in March. -/
theorem toDays_ofMarch (hyear : 0 ≤ year ∧ year < 400) (hmonth : 0 ≤ month ∧ month ≤ 11) :
    (ofMarch era year month day).toDays =
      146097 * era + (365 * year + year / 4 - year / 100) + (153 * month + 2) / 5 + day - 1
        - 719468 := by
  have hera : (year + era * 400) / 400 = era := by omega
  have hleft : (year + era * 400) % 400 = year := by omega
  by_cases h : month < 10
  · rw [ofMarch_of_lt h hmonth.left]
    unfold toDays
    dsimp only
    rw [if_neg (by omega), if_pos (by omega), hera, hleft, Int.add_sub_cancel]
    omega
  · rw [ofMarch_of_le (by omega) hmonth.right, Int.add_right_comm]
    unfold toDays
    dsimp only
    rw [if_pos (by omega), if_neg (by omega), Int.add_sub_cancel, Int.sub_add_cancel, hera, hleft]
    omega

/-- The year of an era that one of its days falls in has begun, and it has not ended. Only the last
day of a leap year comes after 365 others. -/
theorem yearOfEra_spec (h : 0 ≤ dayOfEra ∧ dayOfEra < 146097)
    (hyear : year = (dayOfEra - dayOfEra / 1460 + dayOfEra / 36524 - dayOfEra / 146096) / 365) :
    (0 ≤ year ∧ year < 400) ∧ 365 * year + year / 4 - year / 100 ≤ dayOfEra ∧
      dayOfEra ≤ 365 * year + year / 4 - year / 100 + 365 ∧
      (dayOfEra = 365 * year + year / 4 - year / 100 + 365 → IsLeapYear (year + 1)) := by
  -- the century and the four years that the day falls in leave nothing but linear arithmetic
  have hcentury : dayOfEra / 36524 = 0 ∨ dayOfEra / 36524 = 1 ∨ dayOfEra / 36524 = 2 ∨
      dayOfEra / 36524 = 3 ∨ dayOfEra / 36524 = 4 := by omega
  have hfour : year = 4 * (dayOfEra / 1460) - 1 ∨ year = 4 * (dayOfEra / 1460) ∨
      year = 4 * (dayOfEra / 1460) + 1 ∨ year = 4 * (dayOfEra / 1460) + 2 ∨
      year = 4 * (dayOfEra / 1460) + 3 := by
    omega
  unfold IsLeapYear
  rcases hcentury with hcentury | hcentury | hcentury | hcentury | hcentury <;>
    rcases hfour with hfour | hfour | hfour | hfour | hfour <;> omega

/-- The month of a year that one of its days falls in has begun, and it has not ended. -/
theorem monthOfYear_spec (h : 0 ≤ dayOfYear ∧ dayOfYear ≤ 365)
    (hmonth : month = (5 * dayOfYear + 2) / 153) :
    (0 ≤ month ∧ month ≤ 11) ∧ (153 * month + 2) / 5 ≤ dayOfYear ∧
      dayOfYear - (153 * month + 2) / 5 + 1 ≤
        if month = 1 ∨ month = 3 ∨ month = 6 ∨ month = 8 then 30
        else if month = 11 then 29 else 31 := by
  have hrange : 0 ≤ month ∧ month ≤ 11 := by omega
  obtain ⟨hlow, hhigh⟩ := hrange
  interval_cases month <;> omega

theorem isValid_ofMarch (hmonth : 0 ≤ month ∧ month ≤ 11)
    (hday : 1 ≤ day ∧ day ≤ if month = 1 ∨ month = 3 ∨ month = 6 ∨ month = 8 then 30
      else if month = 11 then 29 else 31)
    (hleap : month = 11 → day = 29 → IsLeapYear (year + 1)) :
    (ofMarch era year month day).IsValid := by
  by_cases h : month < 10
  · rw [ofMarch_of_lt h hmonth.left]
    constructor
    · dsimp only
      omega
    · dsimp only
      rw [monthLength]
      omega
  · rw [ofMarch_of_le (by omega) hmonth.right]
    constructor
    · dsimp only
      omega
    · dsimp only
      rw [monthLength_add_era, monthLength]
      by_cases hlong : IsLeapYear (year + 1)
      · rw [if_pos hlong]
        omega
      · have hshort : month = 11 → day ≠ 29 := fun h h' => hlong (hleap h h')
        rw [if_neg hlong]
        omega

end Shifted

/-- What is counted is a day of the calendar, and it is the one with that number. -/
theorem ofDays_spec (days : Int) : (ofDays days).IsValid ∧ (ofDays days).toDays = days := by
  have hera : 0 ≤ (days + 719468) % 146097 ∧ (days + 719468) % 146097 < 146097 := by omega
  obtain ⟨hyear, hbegun, hleft, hleap⟩ := yearOfEra_spec hera rfl
  obtain ⟨hmonth, hpassed, hremains⟩ := monthOfYear_spec ⟨Int.sub_nonneg_of_le hbegun,
    Int.sub_left_le_of_le_add hleft⟩ rfl
  have hdays := Int.mul_ediv_add_emod (days + 719468) 146097
  refine ⟨isValid_ofMarch hmonth ⟨by omega, hremains⟩ fun h h' => hleap ?_, ?_⟩
  · rw [h] at h'
    omega
  · refine (toDays_ofMarch hyear hmonth).trans ?_
    omega

/-! ## The order of days -/

/-- The decimal number that a day is written as, the year before the month before the day. -/
def number (date : CivilDate) : Int :=
  (date.year * 100 + date.month) * 100 + date.day

/-- Of two days the earlier one is written as the smaller number. -/
theorem number_lt_of_toDays_lt (ha : a.IsValid) (hb : b.IsValid) (h : a.toDays < b.toDays) :
    a.number < b.number := by
  have hyear : a.year ≤ b.year := by
    by_contra hlt
    have hstart : yearStart (b.year + 1) ≤ yearStart a.year :=
      yearStart_strictMono.monotone (Int.add_one_le_of_lt (Int.not_le.mp hlt))
    have hafter := yearStart_le_toDays ha
    have hbefore := toDays_lt_yearStart hb
    omega
  have hbefore := toDays_lt hb
  have hlength := monthLength_le a.year a.month
  obtain ⟨hamonth, haday⟩ := ha
  obtain ⟨hbmonth, hbday⟩ := hb
  unfold number
  rcases Int.le_iff_lt_or_eq.mp hyear with hyear | hyear
  · omega
  · rw [toDays_eq hamonth, hyear] at h
    have hmonth : a.month ≤ b.month := by
      by_contra hlt
      have hstart : monthStart b.year (b.month + 1) ≤ monthStart b.year a.month :=
        monthStart_mono _ (Int.add_one_le_of_lt (Int.not_le.mp hlt))
      omega
    rw [toDays_eq hbmonth] at h
    rcases Int.le_iff_lt_or_eq.mp hmonth with hmonth | hmonth
    · omega
    · rw [hmonth] at h
      omega

/-- A later day is written as a larger number. -/
theorem number_ofDays_strictMono : StrictMono fun days => (ofDays days).number := by
  intro days days' h
  obtain ⟨hvalid, hdays⟩ := ofDays_spec days
  obtain ⟨hvalid', hdays'⟩ := ofDays_spec days'
  exact number_lt_of_toDays_lt hvalid hvalid' (by omega)

/-- A day falls in a year when it comes after the start of the year and before that of the next. -/
theorem year_le_iff (h : date.IsValid) (year : Int) :
    year ≤ date.year ↔ yearStart year ≤ date.toDays := by
  constructor
  · intro hle
    exact (yearStart_strictMono.monotone hle).trans (yearStart_le_toDays h)
  · intro hle
    have hlt : year < date.year + 1 :=
      yearStart_strictMono.lt_iff_lt.mp (hle.trans_lt (toDays_lt_yearStart h))
    omega

/-- Of two days in one year the earlier one is in no later month. -/
theorem month_le_of_toDays_le (ha : a.IsValid) (hb : b.IsValid) (hyear : a.year = b.year)
    (h : a.toDays ≤ b.toDays) : a.month ≤ b.month := by
  by_contra hlt
  have hstart : monthStart a.year (b.month + 1) ≤ monthStart a.year a.month :=
    monthStart_mono _ (Int.add_one_le_of_lt (Int.not_le.mp hlt))
  have hbefore := toDays_lt hb
  have hday := ha.day
  rw [toDays_eq ha.month] at h
  rw [← hyear] at hbefore
  omega

/-- No two days have the same number. -/
theorem eq_of_toDays_eq (ha : a.IsValid) (hb : b.IsValid) (h : a.toDays = b.toDays) : a = b := by
  have hyear : a.year = b.year := by
    refine Int.le_antisymm ?_ ?_
    · rw [year_le_iff hb, ← h]
      exact yearStart_le_toDays ha
    · rw [year_le_iff ha, h]
      exact yearStart_le_toDays hb
  have hmonth : a.month = b.month :=
    Int.le_antisymm (month_le_of_toDays_le ha hb hyear h.le)
      (month_le_of_toDays_le hb ha hyear.symm h.ge)
  have hday : a.day = b.day := by
    rw [toDays_eq ha.month, toDays_eq hb.month, hyear, hmonth] at h
    omega
  cases a
  cases b
  simp only at hyear hmonth hday
  rw [hyear, hmonth, hday]

/-- A day is found again by its number exactly if it is one of the calendar. -/
theorem ofDays_toDays_iff : ofDays date.toDays = date ↔ date.IsValid := by
  obtain ⟨hvalid, hdays⟩ := ofDays_spec date.toDays
  constructor
  · intro h
    rwa [h] at hvalid
  · intro h
    exact eq_of_toDays_eq hvalid h hdays

/-- A day is in a year or a later one exactly if it is not before the start of the year. -/
theorem year_ofDays_le_iff (year days : Int) :
    year ≤ (ofDays days).year ↔ yearStart year ≤ days := by
  obtain ⟨hvalid, hdays⟩ := ofDays_spec days
  rw [year_le_iff hvalid, hdays]

end CivilDate
end RowFilter.Directory
