import VisualEncoding.Calendar.Zone
import VisualEncoding.Ticks.Linear

/-!
# Calendar intervals

An interval counts in a calendar unit: every 15 minutes, every 3 months. Its boundaries are the
multiples of its step within the next larger unit, as a clock of a zone shows them. Spans of time are
given in milliseconds from 1970-01-01T00:00:00Z; a number that is no instant of the calendar is its own
boundary.

The specification asks for `nice` and for ticks on a span of time (§4.2, §4.5) and leaves the intervals open.
Notes on what is fixed here:
- a span gets the interval of `usual` whose length is the closest by ratio to a `count`-th of it; shorter and
  longer spans get round numbers of milliseconds and of years (`Ticks.step`);
- a step is added to a clock reading as it is; where it has a remainder or counts months, its last 32 bits
  stand for it (`shortStep`);
- a step on the way that has no result is an `IntervalFault`, although §4.6 has construction fail for missing
  features only. Which spans meet one is said in `Proofs/Calendar/SpanFaults`;
- on a clock that is put back a reading is understood by one of its two offsets, so `floor` can give a boundary
  after an instant of the repeated hour (`Proofs/Calendar/LocalSpans`).
-/

namespace VisualEncoding.Calendar

variable {α : Type} [Scalar α]

/-- The units that intervals count in. -/
inductive TimeUnit where
  | millisecond
  | second
  | minute
  | hour
  | day
  | week
  | month
  | year
  deriving Repr, DecidableEq

/-- Every `step` units. -/
structure Interval where
  unit : TimeUnit
  step : Nat
  step_pos : 0 < step
  deriving Repr, DecidableEq

/-- Why a boundary could not be computed. -/
inductive IntervalFault where
  /-- A clock reading on the way lies beyond the years of the calendar. -/
  | outsideCalendar
  /-- The step has no remainder, because its last 32 bits are zero. -/
  | noRemainder
  deriving Repr, DecidableEq

namespace Interval

/-- An interval with a step of at least one. -/
def every (unit : TimeUnit) (step : Int) : Interval :=
  { unit, step := max 1 step.toNat, step_pos := by omega }

/-! ## Choosing an interval -/

/-- The usual intervals with their lengths in milliseconds, ascending; months have 30 days and years
365. -/
def usual : List (TimeUnit × Nat × Nat) :=
  let second := 1000
  let minute := 60 * second
  let hour := 60 * minute
  let day := 24 * hour
  [(.second, 1, second), (.second, 5, 5 * second), (.second, 15, 15 * second),
   (.second, 30, 30 * second), (.minute, 1, minute), (.minute, 5, 5 * minute),
   (.minute, 15, 15 * minute), (.minute, 30, 30 * minute), (.hour, 1, hour), (.hour, 3, 3 * hour),
   (.hour, 6, 6 * hour), (.hour, 12, 12 * hour), (.day, 1, day), (.day, 2, 2 * day),
   (.week, 1, 7 * day), (.month, 1, 30 * day), (.month, 3, 90 * day), (.year, 1, 365 * day)]

/-- The length of a year of 365 days in milliseconds. -/
def yearLength : Nat := 365 * 86400000

/-- An interval for a span that is shorter than the usual ones allow: a round number of
milliseconds. -/
def ofMillis (start stop : α) (count : Nat) : Interval :=
  every .millisecond
    (Scalar.toInt64 (Scalar.round (Scalar.greatest (Scalar.abs (Ticks.step start stop count)) 1)))

/-- An interval for a span that is longer than the usual ones allow: a round number of years. -/
def ofYears (start stop : α) (count : Nat) : Interval :=
  let year : α := Scalar.ofInt yearLength
  every .year (Scalar.toInt64 (Scalar.round (Scalar.abs (Ticks.step (start / year) (stop / year) count))))

/-- The interval that cuts a span into about `count` parts. Between two usual intervals the one wins
whose length is the closer by ratio. -/
def forSpan (start stop : α) (count : Nat) : Interval :=
  let target := Scalar.abs (stop - start) / Scalar.ofInt (max count 1)
  let length (u : TimeUnit × Nat × Nat) : α := Scalar.ofInt u.2.2
  let shorter := usual.takeWhile fun u => decide (length u ≤ target)
  match shorter.getLast?, usual[shorter.length]? with
  | none, _ => ofMillis start stop count
  | some _, none => ofYears start stop count
  | some before, some after =>
    let chosen := if target / length before < length after / target then before else after
    every chosen.1 chosen.2.1

/-! ## Boundaries on a clock -/

/-- The step in 32 bits. -/
def shortStep (i : Interval) : Nat := i.step % 0x100000000

/-- The last multiple of the step that is not above `n`. -/
def align (i : Interval) (n : Nat) : Except IntervalFault Nat :=
  if i.shortStep = 0 then .error .noRemainder else .ok (n - n % i.shortStep)

/-- A date after another fallible step, or a fault. -/
def orFault {β : Type} : Option β → Except IntervalFault β
  | some b => .ok b
  | none => .error .outsideCalendar

/-- The last boundary on a clock that is not after a reading; nothing if the calendar does not hold
it. -/
def startOf (i : Interval) (c : ClockReading) : Except IntervalFault (Option ClockReading) :=
  match i.unit with
  | .millisecond => .ok (some c)
  | .second => do
    let s ← i.align c.secondOfMinute
    return some { c with second := c.second - c.secondOfMinute + s, nano := 0 }
  | .minute => do
    let m ← i.align c.minute
    return some { c with second := c.hour * 3600 + m * 60, nano := 0 }
  | .hour => do
    let h ← i.align c.hour
    return some { c with second := h * 3600, nano := 0 }
  | .day => do
    let d ← i.align (c.date.day - 1)
    return some (.startOf { c.date with day := d + 1 })
  | .week => do
    let d ← orFault (c.date.addDays? (-c.date.weekday))
    return some (.startOf d)
  | .month => do
    let m ← i.align (c.date.month - 1)
    return some (.startOf { c.date with month := m + 1, day := 1 })
  | .year =>
    if i.shortStep = 0 then .error .noRemainder
    else
      let step := Int.bmod i.step 0x100000000
      .ok ((Date.ofParts? (c.date.year - c.date.year % step) 1 1).map .startOf)

/-- A clock reading one step later; nothing if the calendar does not hold it. -/
def oneStepAfter (i : Interval) (c : ClockReading) : Except IntervalFault (Option ClockReading) :=
  let later (seconds : Nat) : Except IntervalFault (Option ClockReading) := do
    let c ← orFault (c.addSeconds? (i.step * seconds : Nat))
    return some c
  let monthsLater (months : Nat) : Option ClockReading :=
    (c.date.addMonths? months).map fun date => { c with date }
  match i.unit with
  | .millisecond => .ok (some c)
  | .second => later 1
  | .minute => later 60
  | .hour => later 3600
  | .day => later 86400
  | .week => later (7 * 86400)
  | .month => .ok (monthsLater i.shortStep)
  | .year => .ok (monthsLater (i.shortStep * 12 % 0x100000000))

/-! ## Boundaries in milliseconds -/

/-- The instant of a number of milliseconds, its fraction dropped; nothing if there is none. -/
def instantOf? (ms : α) : Option Instant :=
  if Scalar.isFinite ms then Instant.ofMillis? (Scalar.toInt64 ms) else none

/-- Moves a number of milliseconds by what `move` does to the clock of a zone. A number that is no
instant, or that is moved to none, stays. -/
def moveOnClock (move : ClockReading → Except IntervalFault (Option ClockReading)) (zone : Zone)
    (ms : α) : Except IntervalFault α :=
  match instantOf? ms with
  | none => .ok ms
  | some t => do
    let c ← orFault (t.clockIn? zone)
    let moved ← move c
    match moved.bind (·.instantIn? zone) with
    | some t => return Scalar.ofInt t.millis
    | none => return ms

/-- The last boundary that is not after `ms`. -/
def floor (i : Interval) (zone : Zone) (ms : α) : Except IntervalFault α :=
  if i.unit = .millisecond then .ok (Scalar.floor (ms / Scalar.ofInt i.step) * Scalar.ofInt i.step)
  else moveOnClock i.startOf zone ms

/-- One step after `ms`. -/
def advance (i : Interval) (zone : Zone) (ms : α) : Except IntervalFault α :=
  if i.unit = .millisecond then .ok (ms + Scalar.ofInt i.step)
  else moveOnClock i.oneStepAfter zone ms

/-- The boundary after a boundary. -/
def next (i : Interval) (zone : Zone) (ms : α) : Except IntervalFault α := do
  i.floor zone (← i.advance zone ms)

/-- The first boundary that is not before `ms`. -/
def ceil (i : Interval) (zone : Zone) (ms : α) : Except IntervalFault α := do
  i.next zone (← i.floor zone (ms - 1))

/-- The boundaries from `current` to `stop`, `limit` of them at most. -/
def rangeFrom (i : Interval) (zone : Zone) (stop : α) : (limit : Nat) → (current : α) →
    Except IntervalFault (List α)
  | 0, _ => .ok []
  | limit + 1, current =>
    if current ≤ stop then do
      let next ← i.next zone current
      if next ≤ current then return [current]
      else return current :: (← rangeFrom i zone stop limit next)
    else .ok []

/-- The most boundaries that a range lists. -/
def rangeLimit : Nat := 10000

/-- The boundaries within an interval of time, ascending. -/
def range (i : Interval) (zone : Zone) (start stop : α) : Except IntervalFault (List α) := do
  i.rangeFrom zone stop rangeLimit (← i.ceil zone start)

end Interval

/-- A span with its ends moved outward to boundaries, its direction kept. -/
def niceSpan (zone : Zone) (start stop : α) (count : Nat) : Except IntervalFault (α × α) :=
  let reversed := decide (stop < start)
  let (lo, hi) := if reversed then (stop, start) else (start, stop)
  if !Scalar.isFinite lo || !Scalar.isFinite hi || lo == hi then .ok (start, stop)
  else do
    let i := Interval.forSpan lo hi count
    let lo ← i.floor zone lo
    let hi ← i.ceil zone hi
    return if reversed then (hi, lo) else (lo, hi)

/-- About `count` boundaries within a span, from `start` to `stop`. -/
def spanTicks (zone : Zone) (start stop : α) (count : Nat) : Except IntervalFault (List α) :=
  if count = 0 || !Scalar.isFinite start || !Scalar.isFinite stop then .ok []
  else if stop < start then do
    let ticks ← (Interval.forSpan stop start count).range zone stop start
    return ticks.reverse
  else (Interval.forSpan start stop count).range zone start stop

end VisualEncoding.Calendar
