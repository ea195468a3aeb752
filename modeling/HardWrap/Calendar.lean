/-!
Dates and times of day.
-/

namespace HardWrap

structure CivilDate where
  year : Nat
  month : Nat
  day : Nat
  deriving DecidableEq, Repr

structure ClockTime where
  hour : Nat
  minute : Nat
  second : Nat
  micros : Nat
  deriving DecidableEq, Repr

inductive Moment where
  | date (date : CivilDate)
  | time (time : ClockTime)
  /-- Date and time of day, with the offset from universal time in minutes if it is known. -/
  | dateTime (date : CivilDate) (time : ClockTime) (offset : Option Int)
  deriving DecidableEq, Repr

def isLeapYear (year : Nat) : Bool :=
  year % 4 == 0 && (year % 100 != 0 || year % 400 == 0)

def daysInMonth (year month : Nat) : Nat :=
  if month = 2 then (if isLeapYear year then 29 else 28)
  else if [4, 6, 9, 11].contains month then 30
  else 31

namespace CivilDate

def isOnCalendar (date : CivilDate) : Bool :=
  1 ≤ date.year && 1 ≤ date.month && date.month ≤ 12 &&
    1 ≤ date.day && date.day ≤ daysInMonth date.year date.month

/-- The date that many days after the first of January 1970. Years are counted from March on, so
that a leap day is the last day of a year. -/
def ofDays (days : Nat) : CivilDate :=
  let shifted := days + 719468
  let era := shifted / 146097
  let dayOfEra := shifted % 146097
  let yearOfEra := (dayOfEra - dayOfEra / 1460 + dayOfEra / 36524 - dayOfEra / 146096) / 365
  let dayOfYear := dayOfEra - (365 * yearOfEra + yearOfEra / 4 - yearOfEra / 100)
  let marchMonth := (5 * dayOfYear + 2) / 153
  let month := if marchMonth < 10 then marchMonth + 3 else marchMonth - 9
  { year := era * 400 + yearOfEra + (if month ≤ 2 then 1 else 0)
    month := month
    day := dayOfYear - (153 * marchMonth + 2) / 5 + 1 }

end CivilDate

def ClockTime.ofMicros (micros : Nat) : ClockTime :=
  let second := micros / 1000000
  { hour := second / 3600 % 24, minute := second / 60 % 60, second := second % 60
    micros := micros % 1000000 }

end HardWrap
