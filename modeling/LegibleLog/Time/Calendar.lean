/-!
# The calendar

The Gregorian calendar, carried on before its beginning and before the year 1.

* `Date.dayNumber d` — the number of `d`, the first of January of year 1 having the number 1;
* `Date.ofDayNumber n` — the date with that number;
* `Date.weekday`, `Date.dayOfYear`, `Date.isoWeek`, `Date.week` — what calendars derive from a date.
-/

namespace LegibleLog.Time

/-- A day of the calendar; months and days count from 1. -/
structure Date where
  year : Int
  month : Nat
  day : Nat
deriving Repr, DecidableEq

/-- The days of the week, from Monday on. -/
inductive Weekday where
  | monday | tuesday | wednesday | thursday | friday | saturday | sunday
deriving Repr, DecidableEq

namespace Weekday

/-- The days in order, Monday first. -/
def all : List Weekday := [monday, tuesday, wednesday, thursday, friday, saturday, sunday]

/-- Days since Monday. -/
def index : Weekday → Nat
  | monday => 0
  | tuesday => 1
  | wednesday => 2
  | thursday => 3
  | friday => 4
  | saturday => 5
  | sunday => 6

/-- The name in English. -/
def name : Weekday → String
  | monday => "Monday"
  | tuesday => "Tuesday"
  | wednesday => "Wednesday"
  | thursday => "Thursday"
  | friday => "Friday"
  | saturday => "Saturday"
  | sunday => "Sunday"

/-- Days since the last `start`, none on a `start` itself. -/
def since (w start : Weekday) : Nat := (w.index + 7 - start.index) % 7

end Weekday

/-- The names of the months in English. -/
def monthNames : List String :=
  ["January", "February", "March", "April", "May", "June", "July", "August", "September", "October", "November",
    "December"]

/-- Every fourth year, but of the full centuries only every fourth. -/
def isLeapYear (year : Int) : Bool := year % 4 == 0 && (year % 100 != 0 || year % 400 == 0)

/-- The lengths of the months of a year. -/
def monthLengths (year : Int) : List Nat :=
  [31, if isLeapYear year then 29 else 28, 31, 30, 31, 30, 31, 31, 30, 31, 30, 31]

/-- The length of a month, zero for a month that does not exist. -/
def monthLength (year : Int) (month : Nat) : Nat :=
  if month = 0 then 0 else (monthLengths year)[month - 1]?.getD 0

/-- The number of days before the first of January of a year, counted from year 1. -/
def daysBeforeYear (year : Int) : Int :=
  let past := year - 1
  365 * past + past / 4 - past / 100 + past / 400

/-- The length of a year. -/
def yearLength (year : Int) : Nat := if isLeapYear year then 366 else 365

namespace Date

/-- The years that a date may have. -/
def minYear : Int := -262143

/-- The last year that a date may have. -/
def maxYear : Int := 262142

/-- The day exists and its year is within the range. -/
def isValid (d : Date) : Bool :=
  minYear ≤ d.year && d.year ≤ maxYear && 1 ≤ d.day && d.day ≤ monthLength d.year d.month

/-- The number of a day within its year, from 1. -/
def dayOfYear (d : Date) : Nat := ((monthLengths d.year).take (d.month - 1)).foldl (· + ·) d.day

/-- The number of a day, from 1 for the first of January of year 1. -/
def dayNumber (d : Date) : Int := daysBeforeYear d.year + (d.dayOfYear : Int)

/-- The day with number `day` when the months from `month` on have these lengths. -/
def inMonths (year : Int) (month day : Nat) : List Nat → Date
  | [] => ⟨year, month, day⟩
  | length :: lengths => if day ≤ length then ⟨year, month, day⟩ else inMonths year (month + 1) (day - length) lengths

/-- The year that the day with number `n` lies in: the mean length of a year is `146097 / 400` days, which is off by
at most one year. -/
def yearOfDayNumber (n : Int) : Int :=
  let guess := (n - 1) * 400 / 146097 + 1
  if n ≤ daysBeforeYear guess then guess - 1
  else if daysBeforeYear (guess + 1) < n then guess + 1
  else guess

/-- The day with number `n`. -/
def ofDayNumber (n : Int) : Date :=
  let year := yearOfDayNumber n
  inMonths year 1 (n - daysBeforeYear year).toNat (monthLengths year)

/-- The day of the week; day number 1 is a Monday. -/
def weekday (d : Date) : Weekday :=
  match (d.dayNumber - 1) % 7 with
  | 0 => .monday
  | 1 => .tuesday
  | 2 => .wednesday
  | 3 => .thursday
  | 4 => .friday
  | 5 => .saturday
  | _ => .sunday

/-- The week of the year when weeks start on `start` and the days before the first of them are week 0. -/
def week (d : Date) (start : Weekday) : Nat := (d.dayOfYear + 6 - d.weekday.since start) / 7

/-- The ISO year and week: weeks start on Monday and belong to the year that their Thursday lies in. -/
def isoWeek (d : Date) : Int × Nat :=
  let thursday := ofDayNumber (d.dayNumber - (d.weekday.index : Int) + 3)
  (thursday.year, (thursday.dayOfYear - 1) / 7 + 1)

/-- The quarter of the year, from 1. -/
def quarter (d : Date) : Nat := (d.month - 1) / 3 + 1

end Date

end LegibleLog.Time
