import PriceTime.Decimal

/-!
# Dates and times of day

Times are nanoseconds since the start of 1970 in universal time. They are shown in the Gregorian
calendar, to the millisecond. The clock ends with the largest signed 64-bit number of nanoseconds,
in the year 2262; later times are shown as that one.
-/

namespace PriceTime.Calendar

/-- Every fourth year is a leap year, except full centuries that are not a multiple of 400. -/
def isLeap (year : Nat) : Bool :=
  year % 4 == 0 && (year % 100 != 0 || year % 400 == 0)

/-- The lengths of the months of a year, January first. -/
def monthLengths (year : Nat) : List Nat :=
  [31, if isLeap year then 29 else 28, 31, 30, 31, 30, 31, 31, 30, 31, 30, 31]

/-- The number of days of a year. -/
def yearLength (year : Nat) : Nat :=
  if isLeap year then 366 else 365

/-- A day of the calendar. -/
structure Date where
  year : Nat
  /-- From 1 for January on. -/
  month : Nat
  /-- From 1 on. -/
  day : Nat
deriving DecidableEq

/-- The days from the first day of year 1 to the first day of `year`. -/
def daysBefore (year : Nat) : Nat :=
  let past := year - 1
  365 * past + past / 4 - past / 100 + past / 400

/-- The year that a day lies in, counting days from the first of year 1. The mean length of a year
gives the year or one of its neighbours. -/
def yearOf (days : Nat) : Nat :=
  let guess := 1 + days * 400 / 146097
  if days < daysBefore guess then guess - 1
  else if daysBefore (guess + 1) ≤ days then guess + 1
  else guess

/-- Count off whole months: the month that a day of a year lies in and the day of that month. -/
def monthOf (month : Nat) (day : Nat) : List Nat → Nat × Nat
  | [] => (month, day + 1)
  | length :: rest =>
    if day < length then (month, day + 1) else monthOf (month + 1) (day - length) rest

/-- The days from the first day of year 1 to the start of 1970. -/
def epochDays : Nat := 719162

/-- The date of a day, counting days from the start of 1970. -/
def Date.ofDays (days : Nat) : Date :=
  let days := days + epochDays
  let year := yearOf days
  let place := monthOf 1 (days - daysBefore year) (monthLengths year)
  { year, month := place.1, day := place.2 }

/-- The latest time the clock can show, in nanoseconds. -/
def lastTime : Nat := 9223372036854775807

/-- The milliseconds since the start of 1970, whole ones only. -/
def milliseconds (time : UInt64) : Nat :=
  min time.toNat lastTime / 1000000

/-- A time as `YYYY-MM-DD HH:MM:SS.mmm`. -/
def format (time : UInt64) : String :=
  let ms := milliseconds time
  let date := Date.ofDays (ms / 86400000)
  let inDay := ms % 86400000
  Decimal.padded 4 date.year ++ "-" ++ Decimal.padded 2 date.month ++ "-" ++
    Decimal.padded 2 date.day ++ " " ++ Decimal.padded 2 (inDay / 3600000) ++ ":" ++
    Decimal.padded 2 (inDay / 60000 % 60) ++ ":" ++ Decimal.padded 2 (inDay / 1000 % 60) ++ "." ++
    Decimal.padded 3 (inDay % 1000)

end PriceTime.Calendar
