import VisualEncoding.Calendar.Instant

/-!
# Time zones

A zone says by how much its clocks differ from the time at the prime meridian, and which offset a
clock reading is understood by. Where clocks are put back a reading occurs twice and standard time is
meant; where they are put forward some readings do not occur at all.

The specification has a local clock and the one at the prime meridian (§4.1, `use_local_time`), and says no
more about the local one. Here a zone is a parameter of all that is read off a clock, and `eastern` is the
local zone that programs run with.
-/

namespace VisualEncoding.Calendar

/-- A time zone. Offsets are in seconds east of the prime meridian. -/
structure Zone where
  /-- The name of the zone; one without a name goes by the offset in force. -/
  name : Option String
  /-- The offset in force at a second counted from 1970-01-01T00:00:00Z. -/
  offsetAt : Int → Int
  /-- The offset that a clock reading is understood by; the reading is given as the second at which
  a clock at the prime meridian shows it. -/
  offsetOfReading? : Int → Option Int

namespace Zone

/-- The time at the prime meridian. -/
def utc : Zone :=
  { name := some "UTC", offsetAt := fun _ => 0, offsetOfReading? := fun _ => some 0 }

/-- The start of the `n`-th Sunday of a month, in days from 1970-01-01. -/
def sunday (year : Int) (month n : Nat) : Int :=
  let first : Date := { year, month, day := 1 }
  first.days + (7 - first.weekday) % 7 + 7 * (n - 1)

/-- Standard time of the eastern zone. -/
def easternStandard : Int := -5 * 3600

/-- Daylight time of the eastern zone. -/
def easternDaylight : Int := -4 * 3600

/-- The reading of a clock on standard time at which daylight time starts: two o'clock on the second
Sunday of March. -/
def springForward (year : Int) : Int := sunday year 3 2 * secondsPerDay + 2 * 3600

/-- The reading of a clock on daylight time at which it ends: two o'clock on the first Sunday of
November. -/
def fallBack (year : Int) : Int := sunday year 11 1 * secondsPerDay + 2 * 3600

/-- The year in which a second lies. -/
def yearOf (second : Int) : Int := (Date.ofDays (second / secondsPerDay)).year

/-- The local zone: eastern time with the same daylight rule in every year. Readings strictly between
the start of daylight time and an hour later do not occur. -/
def eastern : Zone where
  name := none
  offsetAt second :=
    let year := yearOf second
    if springForward year - easternStandard ≤ second ∧ second < fallBack year - easternDaylight then
      easternDaylight
    else easternStandard
  offsetOfReading? reading :=
    let year := yearOf reading
    if reading ≤ springForward year then some easternStandard
    else if reading < springForward year + 3600 then none
    else if reading < fallBack year - 3600 then some easternDaylight
    else some easternStandard

/-- The local zone or the time at the prime meridian. -/
def ofLocal (isLocal : Bool) : Zone := if isLocal then eastern else utc

end Zone

/-- What a clock of a zone shows at an instant; nothing if that leaves the calendar. -/
def Instant.clockIn? (t : Instant) (zone : Zone) : Option ClockReading :=
  let shown := (t.shift (zone.offsetAt t.second)).clock
  if shown.date.inRange then some shown else none

/-- The instant that a clock reading of a zone means, if it occurs and the calendar holds it. -/
def ClockReading.instantIn? (c : ClockReading) (zone : Zone) : Option Instant := do
  let offset ← zone.offsetOfReading? c.toInstant.second
  let t := c.toInstant.shift (-offset)
  if t.inRange then some t else none

end VisualEncoding.Calendar
