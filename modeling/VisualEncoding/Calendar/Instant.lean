import VisualEncoding.Calendar.Date

/-!
# Instants and clock readings

An instant is a point in time, counted from 1970-01-01T00:00:00Z. A clock reading is a date with a
time of day; which instant it means is for a time zone to say. A leap second is the second 59 with
its fraction counted on beyond one.
-/

namespace VisualEncoding.Calendar

/-- The number of nanoseconds of a second. -/
def nanosPerSecond : Nat := 1000000000

/-- The number of nanoseconds of a millisecond. -/
def nanosPerMilli : Nat := 1000000

/-- The number of seconds of a day. -/
def secondsPerDay : Nat := 86400

/-- A date and a time of day: the second of the day and the nanosecond of that second. -/
structure ClockReading where
  date : Date
  second : Nat
  nano : Nat
  deriving Repr, DecidableEq, Inhabited

/-- A point in time: seconds from 1970-01-01T00:00:00Z and the nanosecond of that second. -/
structure Instant where
  second : Int
  nano : Nat
  deriving Repr, DecidableEq, Inhabited

namespace ClockReading

/-- A clock reading from the parts of the time of day. A second 59 may last two seconds. -/
def ofParts? (date : Date) (hour minute second nano : Nat) : Option ClockReading :=
  if hour < 24 ∧ minute < 60 ∧ second < 60 ∧ nano < 2 * nanosPerSecond ∧
      (nano < nanosPerSecond ∨ second = 59) then
    some { date, second := hour * 3600 + minute * 60 + second, nano }
  else none

/-- Midnight at the start of a date. -/
def startOf (date : Date) : ClockReading := { date, second := 0, nano := 0 }

/-- The hour of the day. -/
def hour (c : ClockReading) : Nat := c.second / 3600

/-- The minute of the hour. -/
def minute (c : ClockReading) : Nat := c.second / 60 % 60

/-- The second of the minute. -/
def secondOfMinute (c : ClockReading) : Nat := c.second % 60

/-- The second of the minute as shown, which is 60 in a leap second. -/
def shownSecond (c : ClockReading) : Nat := c.secondOfMinute + c.nano / nanosPerSecond

/-- The nanosecond of the second as shown. -/
def shownNano (c : ClockReading) : Nat := c.nano % nanosPerSecond

/-- The instant of a clock that shows the time at the prime meridian. -/
def toInstant (c : ClockReading) : Instant :=
  { second := c.date.days * secondsPerDay + c.second, nano := c.nano }

/-- The clock reading a number of seconds later; a leap second counts as one second. -/
def addSeconds? (c : ClockReading) (n : Int) : Option ClockReading :=
  let total := c.second + (c.nano / nanosPerSecond : Nat) + n
  (c.date.addDays? (total / secondsPerDay)).map fun date =>
    { date, second := (total % secondsPerDay).toNat, nano := c.nano % nanosPerSecond }

end ClockReading

namespace Instant

/-- What a clock shows that is set to the time at the prime meridian. -/
def clock (t : Instant) : ClockReading :=
  { date := Date.ofDays (t.second / secondsPerDay)
    second := (t.second % secondsPerDay).toNat
    nano := t.nano }

/-- The same fraction of a second, a number of seconds later. -/
def shift (t : Instant) (seconds : Int) : Instant := { t with second := t.second + seconds }

/-- Whether the date of an instant lies in the years of the calendar. -/
def inRange (t : Instant) : Bool := t.clock.date.inRange

/-- The whole milliseconds from 1970-01-01T00:00:00Z. -/
def millis (t : Instant) : Int := t.second * 1000 + (t.nano / nanosPerMilli : Nat)

/-- The instant a number of milliseconds after 1970-01-01T00:00:00Z, if the calendar holds it. -/
def ofMillis? (ms : Int) : Option Instant :=
  let t : Instant := { second := ms / 1000, nano := (ms % 1000).toNat * nanosPerMilli }
  if t.inRange then some t else none

/-- Whether one instant comes before another. -/
def before (a b : Instant) : Bool := decide (a.second < b.second ∨ a.second = b.second ∧ a.nano < b.nano)

end Instant

end VisualEncoding.Calendar
