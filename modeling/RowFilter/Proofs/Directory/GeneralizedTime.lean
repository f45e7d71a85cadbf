import RowFilter.Proofs.Directory.Calendar
import RowFilter.Proofs.Directory.Denotation
import RowFilter.Proofs.Directory.EntryOrder
import RowFilter.Proofs.Number.Numeral
import RowFilter.Proofs.Text.LetterCase

/-!
# Reading and comparing generalized times

The digits of a generalized time are those of one number, which is greater for a later instant. In
the years that four digits are enough for, the text has a fixed width, so it is read back as its
instant and the order of texts is that of instants. Outside these years nothing is read back.
-/

namespace RowFilter.Directory

open Number

/-! ## The digits of a generalized time -/

theorem padded_isNumeral {width : Nat} {n : Int} (h : 0 ≤ n) (hwidth : 0 < width)
    (hn : n < 10 ^ width) : IsNumeral width n (padded width n) := by
  obtain ⟨n, rfl⟩ := Int.eq_ofNat_of_zero_le h
  have hlength : (natText n).length ≤ width :=
    (length_natText_le_iff hwidth).mpr (by exact_mod_cast hn)
  rw [padded, if_neg (by omega), Int.natAbs_natCast]
  constructor
  · rw [List.length_append, List.length_replicate]
    omega
  · intro c hc
    rcases List.mem_append.mp hc with hc | hc
    · rw [List.eq_of_mem_replicate hc]
      decide
    · exact isDigit_of_mem_natText hc
  · rw [digitsValue_append, digitsValue_zeros, digitsValue_natText]
    simp

/-- A padded number has digits in it and perhaps a minus sign. -/
theorem mem_padded {width : Nat} {n : Int} {c : Char} (h : c ∈ padded width n) :
    c.isDigit = true ∨ c = '-' := by
  unfold padded at h
  have hpiece {count : Nat} (h : c ∈ List.replicate count '0' ++ natText n.natAbs) :
      c.isDigit = true := by
    rcases List.mem_append.mp h with h | h
    · rw [List.eq_of_mem_replicate h]
      decide
    · exact isDigit_of_mem_natText h
  split at h
  · rcases List.mem_cons.mp h with h | h
    · exact .inr h
    · exact .inl (hpiece h)
  · exact .inl (hpiece h)

/-- A number that is not written in its width stands behind a sign or takes more digits. -/
theorem not_isDigit_padded {width : Nat} {n : Int} (hwidth : 0 < width)
    (h : ¬(0 ≤ n ∧ n < 10 ^ width)) :
    '-' ∈ padded width n ∨ width < (padded width n).length := by
  unfold padded
  split
  · simp
  next hneg =>
    obtain ⟨n, rfl⟩ := Int.eq_ofNat_of_zero_le (Int.not_lt.mp hneg)
    have hn : ¬(n : Int) < 10 ^ width := fun hlt => h ⟨Int.natCast_nonneg n, hlt⟩
    have hlength : ¬(natText n).length ≤ width := fun hle =>
      hn (by exact_mod_cast (length_natText_le_iff hwidth).mp hle)
    simp only [Int.natAbs_natCast, List.length_append, List.length_replicate]
    omega

/-- A generalized time without its last letter. -/
def timeDigits (seconds : Int) : List Char :=
  let date := CivilDate.ofDays (seconds / 86400)
  let ofDay := seconds % 86400
  padded 4 date.year ++ padded 2 date.month ++ padded 2 date.day ++ padded 2 (ofDay / 3600)
    ++ padded 2 (ofDay % 3600 / 60) ++ padded 2 (ofDay % 60)

theorem generalizedTimeChars_eq (seconds : Int) :
    generalizedTimeChars seconds = timeDigits seconds ++ ['Z'] :=
  rfl

/-- The decimal number whose digits are those of a generalized time. -/
def timeNumber (seconds : Int) : Int :=
  let ofDay := seconds % 86400
  (((CivilDate.ofDays (seconds / 86400)).number * 100 + ofDay / 3600) * 100 + ofDay % 3600 / 60)
    * 100 + ofDay % 60

/-- A later instant has the larger number. -/
theorem timeNumber_strictMono : StrictMono timeNumber := by
  intro s t h
  unfold timeNumber
  have hdays : s / 86400 ≤ t / 86400 := by omega
  rcases Int.le_iff_lt_or_eq.mp hdays with hdays | hdays
  · have hnumber := CivilDate.number_ofDays_strictMono hdays
    dsimp only at hnumber ⊢
    omega
  · rw [hdays]
    dsimp only
    omega

/-- The year of an instant, in UTC, is one of those from one year to another. -/
def WithinYears (first last : Int) (seconds : Int64) : Prop :=
  yearStart first * 86400 ≤ seconds.toInt ∧ seconds.toInt < yearStart (last + 1) * 86400

instance (first last : Int) (seconds : Int64) : Decidable (WithinYears first last seconds) :=
  inferInstanceAs (Decidable (_ ∧ _))

/-- An instant lies within some years exactly if the year of its day does. -/
theorem withinYears_iff (first last : Int) (seconds : Int64) : WithinYears first last seconds ↔
    first ≤ (CivilDate.ofDays (seconds.toInt / 86400)).year ∧
      (CivilDate.ofDays (seconds.toInt / 86400)).year ≤ last := by
  have hlast : (CivilDate.ofDays (seconds.toInt / 86400)).year ≤ last ↔
      ¬last + 1 ≤ (CivilDate.ofDays (seconds.toInt / 86400)).year := by
    omega
  rw [hlast, CivilDate.year_ofDays_le_iff, CivilDate.year_ofDays_le_iff, WithinYears]
  omega

section Fields

variable {seconds : Int64}

theorem year_isNumeral (h : WithinYears 0 9999 seconds) :
    IsNumeral 4 (CivilDate.ofDays (seconds.toInt / 86400)).year
      (padded 4 (CivilDate.ofDays (seconds.toInt / 86400)).year) := by
  obtain ⟨hfirst, hlast⟩ := (withinYears_iff 0 9999 seconds).mp h
  exact padded_isNumeral hfirst (by decide) (by omega)

theorem pair_isNumeral {n : Int} (h : 0 ≤ n) (h' : n < 100) : IsNumeral 2 n (padded 2 n) :=
  padded_isNumeral h (by decide) h'

theorem CivilDate.IsValid.day_lt {date : CivilDate} (h : date.IsValid) : date.day < 100 := by
  have hday := h.day
  have hlength := monthLength_le date.year date.month
  omega

/-- Four digits are enough for the year of an instant. -/
theorem timeDigits_isNumeral (h : WithinYears 0 9999 seconds) :
    IsNumeral 14 (timeNumber seconds.toInt) (timeDigits seconds.toInt) := by
  obtain ⟨hvalid, -⟩ := CivilDate.ofDays_spec (seconds.toInt / 86400)
  have hmonth := hvalid.month
  have hday := hvalid.day
  exact (((((year_isNumeral h).append (pair_isNumeral (by omega) (by omega))).append
    (pair_isNumeral (by omega) hvalid.day_lt)).append (pair_isNumeral (by omega) (by omega))).append
      (pair_isNumeral (by omega) (by omega))).append (pair_isNumeral (by omega) (by omega))

end Fields

/-! ## Reading a generalized time -/

section Reading

variable {body front back : List Char} {start length : Nat} {n : Int}

/-- Without a fraction, the text is read in front of its last letter. -/
theorem parseGeneralizedTimeChars?_append (hpoint : '.' ∉ body) :
    parseGeneralizedTimeChars? (body ++ ['Z']) =
      if body.length ≠ 14 || !body.all Char.isDigit then none
      else
        let date : CivilDate := ⟨field body 0 4, field body 4 2, field body 6 2⟩
        if date.month < 1 || 12 < date.month || date.day < 1 || 31 < date.day ||
            23 < field body 8 2 || 59 < field body 10 2 || 60 < field body 12 2 then none
        else some (date.toDays * 86400 + field body 8 2 * 3600 + field body 10 2 * 60 +
          field body 12 2) := by
  have hall : ∀ c ∈ body, (c != '.') = true := by
    intro c hc
    rw [bne_iff_ne]
    rintro rfl
    exact hpoint hc
  have htake := List.takeWhile_eq_self_iff.mpr hall
  have hdrop := List.dropWhile_eq_nil_iff.mpr hall
  simp only [parseGeneralizedTimeChars?, List.reverse_append, List.reverse_singleton,
    List.singleton_append, List.reverse_reverse, htake, hdrop, List.drop_nil, List.all_nil,
    Bool.not_true, Bool.false_or]

/-- A numeral in front is the first field. -/
theorem field_append_zero (h : IsNumeral length n front) : field (front ++ back) 0 length = n := by
  rw [field, List.drop_zero, List.take_left' h.length_eq, h.digitsValue_eq]

/-- A field behind a numeral is a field of what follows the numeral. -/
theorem field_append_add {width : Nat} (h : IsNumeral width n front) :
    field (front ++ back) (start + width) length = field back start length := by
  rw [field, field, Nat.add_comm, ← List.drop_drop, List.drop_left' h.length_eq]

variable {y mo d h mi s : List Char} {year month day hour minute second : Int}

/-- Numerals in the widths of a generalized time are found in their places. -/
theorem fields_append (hyear : IsNumeral 4 year y) (hmonth : IsNumeral 2 month mo)
    (hday : IsNumeral 2 day d) (hhour : IsNumeral 2 hour h) (hminute : IsNumeral 2 minute mi)
    (hsecond : IsNumeral 2 second s) (hbody : body = y ++ mo ++ d ++ h ++ mi ++ s) :
    field body 0 4 = year ∧ field body 4 2 = month ∧ field body 6 2 = day ∧
      field body 8 2 = hour ∧ field body 10 2 = minute ∧ field body 12 2 = second := by
  rw [← List.append_nil s] at hbody
  simp only [hbody, List.append_assoc]
  refine ⟨field_append_zero hyear, ?_, ?_, ?_, ?_, ?_⟩
  · rw [field_append_add hyear, field_append_zero hmonth]
  · rw [field_append_add hyear, field_append_add hmonth, field_append_zero hday]
  · rw [field_append_add hyear, field_append_add hmonth, field_append_add hday,
      field_append_zero hhour]
  · rw [field_append_add hyear, field_append_add hmonth, field_append_add hday,
      field_append_add hhour, field_append_zero hminute]
  · rw [field_append_add hyear, field_append_add hmonth, field_append_add hday,
      field_append_add hhour, field_append_add hminute, field_append_zero hsecond]

end Reading

/-- There is no fraction in a generalized time. -/
theorem notMem_timeDigits (seconds : Int) : '.' ∉ timeDigits seconds := by
  have hpiece (width : Nat) (n : Int) : '.' ∉ padded width n := by
    intro h
    rcases mem_padded h with h | h
    · exact absurd h (by decide)
    · exact absurd h (by decide)
  simp only [timeDigits, List.mem_append, hpiece, or_self, not_false_eq_true]

theorem length_padded (width : Nat) (n : Int) : width ≤ (padded width n).length := by
  have hdigits := List.length_pos_of_ne_nil (natText_ne_nil n.natAbs)
  unfold padded
  dsimp only
  split
  · simp only [List.length_append, List.length_cons, List.length_replicate]
    omega
  · simp only [List.length_append, List.length_replicate]
    omega

/-- A year that four digits are not enough for spoils the text. -/
theorem timeDigits_spoilt {seconds : Int64} (h : ¬WithinYears 0 9999 seconds) :
    (timeDigits seconds.toInt).length ≠ 14 ∨
      (timeDigits seconds.toInt).all Char.isDigit = false := by
  rw [withinYears_iff] at h
  have hyear : ¬(0 ≤ (CivilDate.ofDays (seconds.toInt / 86400)).year ∧
      (CivilDate.ofDays (seconds.toInt / 86400)).year < 10 ^ 4) := by
    omega
  have hlength := length_padded 2
  rcases not_isDigit_padded (by decide) hyear with hsign | hlong
  · right
    rw [List.all_eq_false]
    refine ⟨'-', ?_, by decide⟩
    simp only [timeDigits, List.mem_append, hsign, true_or]
  · left
    simp only [timeDigits, List.length_append]
    have hmonth := hlength (CivilDate.ofDays (seconds.toInt / 86400)).month
    have hday := hlength (CivilDate.ofDays (seconds.toInt / 86400)).day
    have hhour := hlength (seconds.toInt % 86400 / 3600)
    have hminute := hlength (seconds.toInt % 86400 % 3600 / 60)
    have hsecond := hlength (seconds.toInt % 86400 % 60)
    omega

/-- Seconds are read back from their generalized time if four digits are enough for the year, and
otherwise nothing is. -/
theorem parseGeneralizedTime?_generalizedTime (seconds : Int64) :
    parseGeneralizedTime? (generalizedTime seconds) =
      if WithinYears 0 9999 seconds then some seconds else none := by
  rw [parseGeneralizedTime?, generalizedTime, String.toList_ofList, generalizedTimeChars_eq,
    parseGeneralizedTimeChars?_append (notMem_timeDigits _)]
  by_cases h : WithinYears 0 9999 seconds
  · have hdigits := timeDigits_isNumeral h
    obtain ⟨hvalid, hdays⟩ := CivilDate.ofDays_spec (seconds.toInt / 86400)
    have hmonth := hvalid.month
    have hday := hvalid.day
    have hdayLength := monthLength_le (CivilDate.ofDays (seconds.toInt / 86400)).year
      (CivilDate.ofDays (seconds.toInt / 86400)).month
    obtain ⟨hfyear, hfmonth, hfday, hfhour, hfminute, hfsecond⟩ := fields_append (year_isNumeral h)
      (pair_isNumeral (by omega) (by omega)) (pair_isNumeral (by omega) hvalid.day_lt)
      (pair_isNumeral (by omega) (by omega)) (pair_isNumeral (by omega) (by omega))
      (pair_isNumeral (by omega) (by omega)) (rfl : timeDigits seconds.toInt = _)
    rw [if_pos h, if_neg (by simp [hdigits.length_eq, List.all_eq_true.mpr hdigits.isDigit])]
    simp only [hfyear, hfmonth, hfday, hfhour, hfminute, hfsecond]
    rw [if_neg, hdays]
    · have hseconds : seconds.toInt / 86400 * 86400 + seconds.toInt % 86400 / 3600 * 3600 +
          seconds.toInt % 86400 % 3600 / 60 * 60 + seconds.toInt % 86400 % 60 = seconds.toInt := by
        omega
      rw [hseconds, Option.map_some, Int64.ofInt_toInt]
    · simp only [Bool.or_eq_true, decide_eq_true_eq]
      omega
  · rw [if_neg h, if_pos]
    · rfl
    · simpa using timeDigits_spoilt h

/-! ## Comparing generalized times -/

theorem isPlain_of_mem {digits : List Char} (h : ∀ c ∈ digits, c.isDigit = true) {c : Char}
    (hc : c ∈ digits ++ ['Z']) : c.isAlphanum = true ∨ c = '-' := by
  rcases List.mem_append.mp hc with hc | hc
  · exact .inl (by simp [Char.isAlphanum, h c hc])
  · obtain rfl := List.mem_singleton.mp hc
    exact .inl (by decide)

variable {s t : Int64}

theorem decodeLossy_generalizedTime (s : Int64) :
    Text.decodeLossy (Text.bytesOf (generalizedTime s)) = timeDigits s.toInt ++ ['Z'] := by
  rw [Text.bytesOf, Text.decodeLossy_encode, generalizedTime, String.toList_ofList,
    generalizedTimeChars_eq]

theorem foldedText_generalizedTime (h : WithinYears 0 9999 s) :
    foldedText (Text.bytesOf (generalizedTime s)) = timeDigits s.toInt ++ ['z'] := by
  have hdigits := (timeDigits_isNumeral h).isDigit
  have hlower : (timeDigits s.toInt).map Char.toLower = timeDigits s.toInt :=
    (List.map_congr_left fun c hc => Binary64.toLower_of_isDigit (hdigits c hc)).trans
      (List.map_id _)
  rw [foldedText, decodeLossy_generalizedTime, Text.lower_of_ascii, List.map_append, hlower]
  · simp
  · intro c hc
    have hplain := toNat_of_plain (isPlain_of_mem hdigits hc)
    omega

/-- No number ends with the letter of a generalized time. -/
theorem place?_generalizedTime (h : WithinYears 0 9999 s) :
    place? (Text.bytesOf (generalizedTime s)) = none := by
  have hdigits := timeDigits_isNumeral h
  have hne : timeDigits s.toInt ≠ [] := by
    intro hnil
    have hlength := hdigits.length_eq
    simp [hnil] at hlength
  rw [place?, decodeLossy_generalizedTime, Text.trim_of_notMem,
    readFloat?_append hdigits.isDigit hne (by decide) (by decide) rfl, Option.bind_none]
  exact fun c hc => isWhitespace_of_plain (isPlain_of_mem hdigits.isDigit hc)

/-- Within four-digit years, generalized times compare as their instants do. -/
theorem compareRaw_generalizedTime (hs : WithinYears 0 9999 s) (ht : WithinYears 0 9999 t) :
    compareRaw (Text.bytesOf (generalizedTime s)) (Text.bytesOf (generalizedTime t)) =
      compare s.toInt t.toInt := by
  rw [compareRaw_of_text (.inl (place?_generalizedTime hs)), foldedText_generalizedTime hs,
    foldedText_generalizedTime ht,
    (timeDigits_isNumeral hs).compare_append (timeDigits_isNumeral ht)]
  exact compare_map timeNumber_strictMono

/-- Filters on dates compare instants, as far as four digits are enough for their years. -/
theorem evaluate_generalizedTime (hs : WithinYears 0 9999 s) (ht : WithinYears 0 9999 t)
    {entry : Entry} {name : String}
    (hvalue : entry.values? name = some [Text.bytesOf (generalizedTime s)]) :
    (SearchFilter.greaterOrEqual name (Text.bytesOf (generalizedTime t))).evaluate entry =
        some (decide (t ≤ s)) ∧
      (SearchFilter.lessOrEqual name (Text.bytesOf (generalizedTime t))).evaluate entry =
        some (decide (s ≤ t)) ∧
      (SearchFilter.equal name (Text.bytesOf (generalizedTime t))).evaluate entry =
        some (decide (s = t)) := by
  simp only [SearchFilter.evaluate, anyValue, hvalue, List.any_cons, List.any_nil, Bool.or_false,
    compareRaw_generalizedTime hs ht, Option.some.injEq]
  refine ⟨?_, ?_, ?_⟩
  · rw [Bool.eq_iff_iff, Std.isGE_compare, decide_eq_true_eq, Int64.le_iff_toInt_le]
  · rw [Bool.eq_iff_iff, Std.isLE_compare, decide_eq_true_eq, Int64.le_iff_toInt_le]
  · rw [Bool.eq_iff_iff, beq_iff_eq, Std.compare_eq_iff_eq, decide_eq_true_eq, Int64.toInt_inj]

/-- An entry that is due in the last second of a leap day. -/
private def dueEntry : Entry :=
  ⟨"cn=a", [("due", [Text.bytesOf "20000229235959Z"])]⟩

/-- The last second of a leap day comes before the first of the next day. -/
theorem evaluate_generalizedTime_leap_day :
    WithinYears 0 9999 951868799 ∧ WithinYears 0 9999 951868800 ∧
      dueEntry.values? "due" = some [Text.bytesOf (generalizedTime 951868799)] ∧
      (SearchFilter.greaterOrEqual "due" (Text.bytesOf (generalizedTime 951868800))).evaluate
        dueEntry = some false ∧
      (SearchFilter.lessOrEqual "due" (Text.bytesOf (generalizedTime 951868800))).evaluate
        dueEntry = some true ∧
      (SearchFilter.equal "due" (Text.bytesOf (generalizedTime 951868800))).evaluate
        dueEntry = some false := by
  have hs : WithinYears 0 9999 951868799 := by decide
  have ht : WithinYears 0 9999 951868800 := by decide
  have hvalue : dueEntry.values? "due" = some [Text.bytesOf (generalizedTime 951868799)] := by
    decide +kernel
  exact ⟨hs, ht, hvalue, evaluate_generalizedTime hs ht hvalue⟩

end RowFilter.Directory
