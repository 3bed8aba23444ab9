/-! The proleptic Gregorian calendar. Days are numbered from the first of January 1970.
The numbering counts years from March, so that the leap day is the last of its year,
and whole eras of 400 years, which all have the same number of days.
-/
namespace UiPlan

structure Date where
  year : Int
  month : Nat
  day : Nat
  deriving DecidableEq, Repr

namespace Date

def isLeapYear (year : Int) : Bool := year % 4 = 0 && (year % 100 ≠ 0 || year % 400 = 0)

def daysInMonth (year : Int) : Nat → Nat
  | 2 => if isLeapYear year then 29 else 28
  | 4 | 6 | 9 | 11 => 30
  | _ => 31

def isValid (date : Date) : Bool :=
  1 ≤ date.month && date.month ≤ 12 && 1 ≤ date.day && date.day ≤ daysInMonth date.year date.month

def daysPerEra : Int := 146097

def epochOffset : Int := 719468

def dayOfMarchYear (date : Date) : Nat :=
  (153 * ((date.month + 9) % 12) + 2) / 5 + (date.day - 1)

def number (date : Date) : Int :=
  let year := if date.month ≤ 2 then date.year - 1 else date.year
  let yearOfEra := year % 400
  let dayOfEra := yearOfEra * 365 + yearOfEra / 4 - yearOfEra / 100 + date.dayOfMarchYear
  year / 400 * daysPerEra + dayOfEra - epochOffset

def ofNumber (number : Int) : Date :=
  let day := number + epochOffset
  let dayOfEra := (day % daysPerEra).toNat
  let yearOfEra := (dayOfEra - dayOfEra / 1460 + dayOfEra / 36524 - dayOfEra / 146096) / 365
  let dayOfYear := dayOfEra - (365 * yearOfEra + yearOfEra / 4 - yearOfEra / 100)
  let shifted := (5 * dayOfYear + 2) / 153
  let month := if shifted < 10 then shifted + 3 else shifted - 9
  let year := yearOfEra + day / daysPerEra * 400
  ⟨if month ≤ 2 then year + 1 else year, month, dayOfYear - (153 * shifted + 2) / 5 + 1⟩

end Date

end UiPlan
