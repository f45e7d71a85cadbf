import RowFilter.Proofs.Directory.GeneralizedTime

/-!
# Times that are read

A generalized time is read field by field. Its month and its day are only compared with the bounds
of all months, so the day may be one that the month does not have; it is then counted as a day of
the next month. What is read is written back as the same text exactly if the day exists.
-/

namespace RowFilter.Directory

open Number

/-- The day that a generalized time names. -/
def writtenDate (text : List Char) : CivilDate :=
  ⟨field text 0 4, field text 4 2, field text 6 2⟩

/-- The decimal number that the digits of a generalized time are read as. -/
def writtenNumber (text : List Char) : Int :=
  (((writtenDate text).number * 100 + field text 8 2) * 100 + field text 10 2) * 100 +
    field text 12 2

section Fields

variable {digits rest : List Char} {start length width : Nat} {n : Int}

theorem field_append_left (h : start + length ≤ digits.length) :
    field (digits ++ rest) start length = field digits start length := by
  rw [field, field, List.drop_append_of_le_length (by omega),
    List.take_append_of_le_length (by rw [List.length_drop]; omega)]

theorem isNumeral_field (hdigits : ∀ c ∈ digits, c.isDigit = true)
    (h : start + length ≤ digits.length) :
    IsNumeral length (field digits start length) ((digits.drop start).take length) where
  length_eq := by
    rw [List.length_take, List.length_drop]
    omega
  isDigit c hc := hdigits c (List.mem_of_mem_drop (List.mem_of_mem_take hc))
  digitsValue_eq := rfl

/-- Digits are a field with the digits after it. -/
theorem isNumeral_drop (start length : Nat) (hdigits : ∀ c ∈ digits, c.isDigit = true)
    (h : start + length ≤ digits.length)
    (hrest : IsNumeral width n (digits.drop (start + length))) :
    IsNumeral (length + width) (field digits start length * 10 ^ width + n)
      (digits.drop start) := by
  have happend := (isNumeral_field hdigits h).append hrest
  rwa [← List.drop_drop, List.take_append_drop] at happend

/-- The fields of fourteen digits are read as one number. -/
theorem isNumeral_writtenNumber (hdigits : ∀ c ∈ digits, c.isDigit = true)
    (hlength : digits.length = 14) : IsNumeral 14 (writtenNumber digits) digits := by
  have hend : IsNumeral 0 0 (digits.drop 14) := by
    rw [List.drop_eq_nil_of_le hlength.le]
    exact ⟨rfl, nofun, rfl⟩
  have hsecond := isNumeral_drop 12 2 hdigits (by omega) hend
  have hminute := isNumeral_drop 10 2 hdigits (by omega) hsecond
  have hhour := isNumeral_drop 8 2 hdigits (by omega) hminute
  have hday := isNumeral_drop 6 2 hdigits (by omega) hhour
  have hmonth := isNumeral_drop 4 2 hdigits (by omega) hday
  have hyear := isNumeral_drop 0 4 hdigits (by omega) hmonth
  rw [List.drop_zero] at hyear
  convert hyear using 1
  simp only [writtenNumber, writtenDate, CivilDate.number]
  ring

end Fields

/-- The fields of a time that is read are those of its text without the last letter. Each is in
bounds of its own, and the day is in those of the longest month. -/
structure IsRead (text digits : List Char) (seconds : Int) : Prop where
  eq_append : text = digits ++ ['Z']
  length_eq : digits.length = 14
  isDigit : ∀ c ∈ digits, c.isDigit = true
  month : 1 ≤ (writtenDate digits).month ∧ (writtenDate digits).month ≤ 12
  day : 1 ≤ (writtenDate digits).day ∧ (writtenDate digits).day ≤ 31
  hour : field digits 8 2 ≤ 23
  minute : field digits 10 2 ≤ 59
  seconds_eq : seconds = (writtenDate digits).toDays * 86400 + field digits 8 2 * 3600 +
    field digits 10 2 * 60 + field digits 12 2

theorem exists_isRead {text : List Char} {seconds : Int} (hpoint : '.' ∉ text)
    (h : parseGeneralizedTimeChars? text = some seconds) :
    ∃ digits, IsRead text digits seconds := by
  obtain ⟨digits, rfl⟩ : ∃ digits, text = digits ++ ['Z'] := by
    unfold parseGeneralizedTimeChars? at h
    split at h
    next reversed hreverse =>
      exact ⟨reversed.reverse, by rw [List.reverse_eq_iff.mp hreverse, List.reverse_cons]⟩
    next => cases h
  rw [parseGeneralizedTimeChars?_append fun hmem => hpoint (List.mem_append_left _ hmem)] at h
  split at h
  next => cases h
  next hdigits =>
    simp only at h
    split at h
    next => cases h
    next hbounds =>
      simp only [Bool.or_eq_true, decide_eq_true_eq, Bool.not_eq_true', not_or,
        Bool.not_eq_false, List.all_eq_true, ne_eq, not_not] at hdigits hbounds
      exact ⟨digits, {
        eq_append := rfl
        length_eq := hdigits.1
        isDigit := hdigits.2
        month := by simp only [writtenDate]; omega
        day := by simp only [writtenDate]; omega
        hour := by omega
        minute := by omega
        seconds_eq := (Option.some.inj h).symm }⟩

/-- A day whose month and day have two digits is known by its decimal number. -/
theorem CivilDate.eq_of_number_eq {a b : CivilDate} (hamonth : 0 ≤ a.month ∧ a.month < 100)
    (haday : 0 ≤ a.day ∧ a.day < 100) (hbmonth : 0 ≤ b.month ∧ b.month < 100)
    (hbday : 0 ≤ b.day ∧ b.day < 100) (h : a.number = b.number) : a = b := by
  obtain ⟨year, month, day⟩ := a
  obtain ⟨year', month', day'⟩ := b
  simp only [number] at h hamonth haday hbmonth hbday
  have hmonth : year * 100 + month = year' * 100 + month' := by omega
  have hyear : year = year' := by omega
  have hdigits : month = month' ∧ day = day' := by omega
  rw [hyear, hdigits.1, hdigits.2]

namespace IsRead

variable {text digits : List Char} {seconds : Int} (h : IsRead text digits seconds)

include h

theorem field_bounds (start length : Nat) (hrange : start + length ≤ 14) :
    0 ≤ field digits start length ∧ field digits start length < 10 ^ length := by
  have hfield := isNumeral_field h.isDigit (h.length_eq ▸ hrange)
  have hlt := digitsValue_lt hfield.isDigit
  rw [hfield.length_eq] at hlt
  refine ⟨Int.natCast_nonneg _, ?_⟩
  rw [← hfield.digitsValue_eq]
  exact_mod_cast hlt

theorem year : 0 ≤ (writtenDate digits).year ∧ (writtenDate digits).year ≤ 9999 := by
  have hyear := h.field_bounds 0 4 (by decide)
  exact ⟨hyear.1, Int.lt_add_one_iff.mp hyear.2⟩

theorem field_eq {start length : Nat} (hrange : start + length ≤ 14) :
    field text start length = field digits start length := by
  rw [h.eq_append, field_append_left (h.length_eq ▸ hrange)]

theorem writtenDate_eq : writtenDate text = writtenDate digits := by
  rw [writtenDate, h.field_eq (by decide), h.field_eq (by decide), h.field_eq (by decide),
    writtenDate]

/-- Whatever is read is in the range of integers. -/
theorem toInt_ofInt : (Int64.ofInt seconds).toInt = seconds := by
  have hyear := h.year
  have hday := h.day
  have hhour := h.field_bounds 8 2 (by decide)
  have hminute := h.field_bounds 10 2 (by decide)
  have hsecond := h.field_bounds 12 2 (by decide)
  have hmonth : 0 ≤ monthStart (writtenDate digits).year (writtenDate digits).month ∧
      monthStart (writtenDate digits).year (writtenDate digits).month ≤ 366 := by
    have hfirst := monthStart_mono (writtenDate digits).year h.month.1
    have hlast : _ ≤ monthStart _ 13 :=
      monthStart_mono (writtenDate digits).year (Int.le_add_one h.month.2)
    rw [monthStart_one] at hfirst
    rw [monthStart_thirteen, yearLength] at hlast
    omega
  have hdays := CivilDate.toDays_eq h.month
  rw [yearStart] at hdays
  refine Int64.toInt_ofInt_of_le ?_ ?_
  · rw [h.seconds_eq]
    omega
  · rw [h.seconds_eq]
    omega

/-- A time is written back as its text if the same digits are written. -/
theorem generalizedTime_eq_iff :
    generalizedTime (Int64.ofInt seconds) = String.ofList text ↔ timeDigits seconds = digits := by
  rw [generalizedTime, generalizedTimeChars_eq, h.toInt_ofInt, ← String.toList_inj,
    String.toList_ofList, String.toList_ofList, h.eq_append, List.append_left_inj]

/-- A year that is not of four digits would spoil the text. -/
theorem withinYears_of_timeDigits_eq (hsame : timeDigits seconds = digits) :
    WithinYears 0 9999 (Int64.ofInt seconds) := by
  by_contra hyear
  have hspoilt := timeDigits_spoilt hyear
  rw [h.toInt_ofInt, hsame] at hspoilt
  rcases hspoilt with hlength | hdigit
  · exact hlength h.length_eq
  · rw [List.all_eq_true.mpr h.isDigit] at hdigit
    cases hdigit

theorem isNumeral_timeDigits (hyears : WithinYears 0 9999 (Int64.ofInt seconds)) :
    IsNumeral 14 (timeNumber seconds) (timeDigits seconds) := by
  have hdigits := timeDigits_isNumeral hyears
  rwa [h.toInt_ofInt] at hdigits

section

variable (hsecond : field digits 12 2 ≤ 59)

include hsecond

/-- Without a leap second, the time of day is less than a day. -/
theorem day_eq : seconds / 86400 = (writtenDate digits).toDays ∧
    seconds % 86400 = field digits 8 2 * 3600 + field digits 10 2 * 60 + field digits 12 2 := by
  have hhour := h.field_bounds 8 2 (by decide)
  have hminute := h.field_bounds 10 2 (by decide)
  have hseconds := h.field_bounds 12 2 (by decide)
  have hhourBound := h.hour
  have hminuteBound := h.minute
  have heq := h.seconds_eq
  omega

/-- A time is written with the number that it is read from exactly if the day that it names
exists. -/
theorem timeNumber_eq_iff :
    timeNumber seconds = writtenNumber digits ↔ (writtenDate digits).IsValid := by
  have hminute := h.field_bounds 10 2 (by decide)
  have hseconds := h.field_bounds 12 2 (by decide)
  have hminuteBound := h.minute
  obtain ⟨hday, htime⟩ := h.day_eq hsecond
  have hnumber : timeNumber seconds = writtenNumber digits ↔
      (CivilDate.ofDays (writtenDate digits).toDays).number = (writtenDate digits).number := by
    unfold timeNumber writtenNumber
    rw [hday, htime]
    dsimp only
    omega
  rw [hnumber, ← CivilDate.ofDays_toDays_iff]
  constructor
  · intro hsame
    obtain ⟨hvalid, -⟩ := CivilDate.ofDays_spec (writtenDate digits).toDays
    have hmonth := hvalid.month
    have hdays := hvalid.day
    have hwritten := h.month
    have hwrittenDay := h.day
    exact CivilDate.eq_of_number_eq (by omega) ⟨by omega, hvalid.day_lt⟩ (by omega) (by omega)
      hsame
  · intro hsame
    rw [hsame]

theorem withinYears_of_isValid (hvalid : (writtenDate digits).IsValid) :
    WithinYears 0 9999 (Int64.ofInt seconds) := by
  rw [withinYears_iff, h.toInt_ofInt, (h.day_eq hsecond).1,
    CivilDate.ofDays_toDays_iff.mpr hvalid]
  exact h.year

theorem timeDigits_eq_iff : timeDigits seconds = digits ↔ (writtenDate digits).IsValid := by
  have hnumeral := isNumeral_writtenNumber h.isDigit h.length_eq
  constructor
  · intro hsame
    have hwritten := h.isNumeral_timeDigits (h.withinYears_of_timeDigits_eq hsame)
    rw [← h.timeNumber_eq_iff hsecond, ← hwritten.digitsValue_eq, hsame, hnumeral.digitsValue_eq]
  · intro hvalid
    have hwritten := h.isNumeral_timeDigits (h.withinYears_of_isValid hsecond hvalid)
    rw [(h.timeNumber_eq_iff hsecond).mpr hvalid] at hwritten
    exact hwritten.unique hnumeral

end

end IsRead

/-- A time that is read, without a fraction or a leap second, is written back as its text exactly if
the day that it names exists. -/
theorem generalizedTime_parsed_iff {text : String} {seconds : Int64}
    (hparse : parseGeneralizedTime? text = some seconds) (hfraction : '.' ∉ text.toList)
    (hsecond : field text.toList 12 2 ≤ 59) :
    generalizedTime seconds = text ↔ (writtenDate text.toList).IsValid := by
  obtain ⟨n, hn, rfl⟩ := Option.map_eq_some_iff.mp hparse
  obtain ⟨digits, hread⟩ := exists_isRead hfraction hn
  have hsecond' : field digits 12 2 ≤ 59 := by rwa [hread.field_eq (by decide)] at hsecond
  rw [hread.writtenDate_eq, ← hread.timeDigits_eq_iff hsecond', ← hread.generalizedTime_eq_iff,
    String.ofList_toList]

/-- The last second of a leap day is written back as it was read. -/
theorem generalizedTime_parsed_leap_day :
    parseGeneralizedTime? "20240229235959Z" = some 1709251199 ∧
      '.' ∉ "20240229235959Z".toList ∧ field "20240229235959Z".toList 12 2 ≤ 59 ∧
      (writtenDate "20240229235959Z".toList).IsValid ∧
      generalizedTime 1709251199 = "20240229235959Z" := by
  have hparse : parseGeneralizedTime? "20240229235959Z" = some 1709251199 := by decide +kernel
  have hfraction : '.' ∉ "20240229235959Z".toList := by decide
  have hsecond : field "20240229235959Z".toList 12 2 ≤ 59 := by decide
  have hvalid : (writtenDate "20240229235959Z".toList).IsValid :=
    ⟨by decide +kernel, by decide +kernel⟩
  exact ⟨hparse, hfraction, hsecond, hvalid,
    (generalizedTime_parsed_iff hparse hfraction hsecond).mpr hvalid⟩

/-- February has no day 31, but it is read as the third of March. -/
theorem not_generalizedTime_parsed :
    ¬∀ (text : String) (seconds : Int64), parseGeneralizedTime? text = some seconds →
      '.' ∉ text.toList → field text.toList 12 2 ≤ 59 → generalizedTime seconds = text := by
  intro h
  have hwritten : generalizedTime 1677801600 = "20230231000000Z" :=
    h "20230231000000Z" 1677801600 (by decide +kernel) (by decide) (by decide)
  revert hwritten
  decide +kernel

end RowFilter.Directory
