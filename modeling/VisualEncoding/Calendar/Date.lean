/-!
# Calendar dates

Dates of the Gregorian calendar, extended to years before its adoption and to the year 0. `Date.days`
counts days from 1970-01-01 and `Date.ofDays` goes back; the calendar covers the years from
`leastYear` to `greatestYear`.
-/

namespace VisualEncoding.Calendar

/-- A day of the calendar, months and days counted from one. -/
structure Date where
  year : Int
  month : Nat
  day : Nat
  deriving Repr, DecidableEq, Inhabited

/-- The first year of the calendar. -/
def leastYear : Int := -262143

/-- The last year of the calendar. -/
def greatestYear : Int := 262142

/-- Whether a year has a 29th of February. -/
def isLeapYear (year : Int) : Bool := year % 4 == 0 && (year % 100 != 0 || year % 400 == 0)

/-- The number of days of a month. -/
def monthLength (year : Int) (month : Nat) : Nat :=
  if month == 2 then if isLeapYear year then 29 else 28
  else if month == 4 || month == 6 || month == 9 || month == 11 then 30
  else 31

/-- The number of days of a year that lie before a month. -/
def daysBeforeMonth (year : Int) : (month : Nat) → Nat
  | 0 | 1 => 0
  | m + 2 => daysBeforeMonth year (m + 1) + monthLength year (m + 1)

/-- The number of days from the first day of the year 1 to the first day of a year. -/
def daysBeforeYear (year : Int) : Int :=
  let past := year - 1
  365 * past + past / 4 - past / 100 + past / 400

/-- The number of days from the first day of the year 1 to 1970-01-01. -/
def epochDays : Int := 719162

namespace Date

/-- A date of the calendar from its parts, if there is such a day. -/
def ofParts? (year : Int) (month day : Nat) : Option Date :=
  if leastYear ≤ year ∧ year ≤ greatestYear ∧ 1 ≤ month ∧ month ≤ 12 ∧ 1 ≤ day ∧
      day ≤ monthLength year month then
    some { year, month, day }
  else none

/-- The day of the year, the first of January being zero. -/
def ordinal (d : Date) : Nat := daysBeforeMonth d.year d.month + (d.day - 1)

/-- The number of days from 1970-01-01. -/
def days (d : Date) : Int := daysBeforeYear d.year + d.ordinal - epochDays

/-- The year of a day counted from the first day of the year 1. The mean length of a year leads to it
or to a year beside it. -/
def yearOfDay (day : Int) : Int :=
  let guess := 400 * day / 146097 + 1
  if day < daysBeforeYear guess then guess - 1
  else if daysBeforeYear (guess + 1) ≤ day then guess + 1
  else guess

/-- The month that holds a day of the year: the last that does not start after it. -/
def monthOfOrdinal (year : Int) (ordinal : Nat) : Nat :=
  ((List.range 12).filter fun m => daysBeforeMonth year (m + 1) ≤ ordinal).length

/-- The date of a day counted from 1970-01-01. -/
def ofDays (days : Int) : Date :=
  let day := days + epochDays
  let year := yearOfDay day
  let ordinal := (day - daysBeforeYear year).toNat
  let month := monthOfOrdinal year ordinal
  { year, month, day := ordinal - daysBeforeMonth year month + 1 }

/-- Whether a date lies in the years of the calendar. -/
def inRange (d : Date) : Bool := decide (leastYear ≤ d.year ∧ d.year ≤ greatestYear)

/-- The date a number of days later, if the calendar reaches so far. -/
def addDays? (d : Date) (n : Int) : Option Date :=
  let moved := ofDays (d.days + n)
  if moved.inRange then some moved else none

/-- The date a number of months later; a day that the month does not have becomes its last. -/
def addMonths? (d : Date) (n : Int) : Option Date :=
  let months := 12 * d.year + (d.month - 1 : Nat) + n
  let year := months / 12
  let month := (months % 12).toNat + 1
  ofParts? year month (min d.day (monthLength year month))

/-- The day of the week, Sunday being zero. -/
def weekday (d : Date) : Nat := ((d.days + 4) % 7).toNat

/-- The quarter of the year, counted from one. -/
def quarter (d : Date) : Nat := (d.month - 1) / 3 + 1

/-- The week of the year if weeks start on a weekday, the days before the first start in week zero. -/
def weekOfYear (d : Date) (start : Nat) : Nat :=
  (d.ordinal + 7 - (d.weekday + 7 - start) % 7) / 7

/-- The year and number of the week from Monday to Sunday; a week belongs to the year that holds its
Thursday. -/
def mondayWeek (d : Date) : Int × Nat :=
  let thursday := ofDays (d.days - (d.weekday + 6) % 7 + 3)
  (thursday.year, thursday.ordinal / 7 + 1)

/-- The names of the months. -/
def monthNames : List String :=
  ["January", "February", "March", "April", "May", "June", "July", "August", "September", "October",
   "November", "December"]

/-- The names of the days of the week. -/
def weekdayNames : List String :=
  ["Sunday", "Monday", "Tuesday", "Wednesday", "Thursday", "Friday", "Saturday"]

end Date

end VisualEncoding.Calendar
