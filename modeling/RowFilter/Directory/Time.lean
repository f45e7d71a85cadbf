import RowFilter.Number.Integer

/-!
# Generalized time

A directory writes an instant as its UTC date and time of day in digits without separators,
followed by `Z`. Dates are those of the Gregorian calendar, extended to all years.
-/

namespace RowFilter.Directory

/-- A day of the calendar. -/
structure CivilDate where
  year : Int
  month : Int
  day : Int
deriving DecidableEq, Repr

namespace CivilDate

/-- The day that is a number of days after the start of 1970. Years are counted from March, so
that a leap day ends its year, in eras of 400 years. -/
def ofDays (days : Int) : CivilDate :=
  let shifted := days + 719468
  let era := shifted / 146097
  let dayOfEra := shifted % 146097
  let yearOfEra := (dayOfEra - dayOfEra / 1460 + dayOfEra / 36524 - dayOfEra / 146096) / 365
  let dayOfYear := dayOfEra - (365 * yearOfEra + yearOfEra / 4 - yearOfEra / 100)
  let monthFromMarch := (5 * dayOfYear + 2) / 153
  let month := if monthFromMarch < 10 then monthFromMarch + 3 else monthFromMarch - 9
  { year := yearOfEra + era * 400 + (if month ≤ 2 then 1 else 0)
    month
    day := dayOfYear - (153 * monthFromMarch + 2) / 5 + 1 }

/-- The number of days from the start of 1970 to a day. -/
def toDays (date : CivilDate) : Int :=
  let year := if date.month ≤ 2 then date.year - 1 else date.year
  let era := year / 400
  let yearOfEra := year % 400
  let monthFromMarch := if 2 < date.month then date.month - 3 else date.month + 9
  let dayOfYear := (153 * monthFromMarch + 2) / 5 + date.day - 1
  let dayOfEra := yearOfEra * 365 + yearOfEra / 4 - yearOfEra / 100 + dayOfYear
  era * 146097 + dayOfEra - 719468

end CivilDate

/-- Decimal digits of an integer, filled up with zeros after the sign to a width. -/
def padded (width : Nat) (n : Int) : List Char :=
  let digits := Number.natText n.natAbs
  if n < 0 then '-' :: List.replicate (width - 1 - digits.length) '0' ++ digits
  else List.replicate (width - digits.length) '0' ++ digits

/-- The generalized time of seconds since the start of 1970. -/
def generalizedTimeChars (seconds : Int) : List Char :=
  let date := CivilDate.ofDays (seconds / 86400)
  let ofDay := seconds % 86400
  padded 4 date.year ++ padded 2 date.month ++ padded 2 date.day ++ padded 2 (ofDay / 3600)
    ++ padded 2 (ofDay % 3600 / 60) ++ padded 2 (ofDay % 60) ++ ['Z']

def generalizedTime (seconds : Int64) : String :=
  String.ofList (generalizedTimeChars seconds.toInt)

/-- The number in a range of decimal digits. -/
def field (digits : List Char) (start length : Nat) : Int :=
  Number.digitsValue ((digits.drop start).take length)

/-- Reads a generalized time with or without a fraction of a second, which is dropped. A minute
may have a leap second. -/
def parseGeneralizedTimeChars? (text : List Char) : Option Int :=
  match text.reverse with
  | 'Z' :: reversed =>
    let body := reversed.reverse
    let digits := body.takeWhile (· != '.')
    let fraction := (body.dropWhile (· != '.')).drop 1
    if !fraction.all Char.isDigit || digits.length ≠ 14 || !digits.all Char.isDigit then none
    else
      let date : CivilDate := ⟨field digits 0 4, field digits 4 2, field digits 6 2⟩
      let hour := field digits 8 2
      let minute := field digits 10 2
      let second := field digits 12 2
      if date.month < 1 || 12 < date.month || date.day < 1 || 31 < date.day || 23 < hour
          || 59 < minute || 60 < second then none
      else some (date.toDays * 86400 + hour * 3600 + minute * 60 + second)
  | _ => none

def parseGeneralizedTime? (text : String) : Option Int64 :=
  (parseGeneralizedTimeChars? text.toList).map Int64.ofInt

end RowFilter.Directory
