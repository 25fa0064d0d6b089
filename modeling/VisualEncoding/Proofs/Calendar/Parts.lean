import VisualEncoding.Proofs.Calendar.Boundaries
import VisualEncoding.Proofs.Calendar.Timestamps

/-!
# Instants made of parts

The parts of a date and of a time of day make a reading of a clock, which shows the same parts again
(`ClockReading.exists_ofParts?_iff`, `ClockReading.ofParts?_spec`). Readings are in the order of their parts, compared
from the year down (`ClockReading.before_of_parts_lt`). The instants that are made so are the ones that can be read
(`Instant.isReadable_iff_isMade`).
-/

namespace VisualEncoding.Calendar

namespace ClockReading

variable {date : Date} {hour minute second nano : Nat} {c c' : ClockReading}

/-- There is a time of day if the parts do not go beyond their units; the second 59 may last two seconds. -/
theorem exists_ofParts?_iff :
    (∃ c, ofParts? date hour minute second nano = some c) ↔
      hour < 24 ∧ minute < 60 ∧ second < 60 ∧ nano < 2 * nanosPerSecond ∧ (nano < nanosPerSecond ∨ second = 59) := by
  unfold ofParts?
  split
  next h => exact iff_of_true ⟨_, rfl⟩ h
  next h =>
    refine iff_of_false ?_ h
    rintro ⟨c, hc⟩
    nomatch hc

/-- A clock shows the parts that its reading is made of. -/
theorem ofParts?_spec (h : ofParts? date hour minute second nano = some c) :
    c.date = date ∧ c.hour = hour ∧ c.minute = minute ∧ c.secondOfMinute = second ∧ c.nano = nano := by
  unfold ofParts? at h
  split at h
  next hparts =>
    cases h
    obtain ⟨-, hminute, hsecond, -⟩ := hparts
    unfold ClockReading.hour ClockReading.minute secondOfMinute
    dsimp only
    exact ⟨rfl, by omega, by omega, by omega, rfl⟩
  next => nomatch h

/-- A time of day is made of the parts that a clock shows. -/
theorem IsTime.ofParts?_eq (h : c.IsTime) : ofParts? c.date c.hour c.minute c.secondOfMinute c.nano = some c := by
  have hsecond := h.second_lt
  have hnano := h.nano_lt
  have hleap := h.leap
  obtain ⟨date, second, nano⟩ := c
  unfold secondsPerDay at hsecond
  unfold ofParts? ClockReading.hour ClockReading.minute secondOfMinute
  dsimp only at hsecond hnano hleap ⊢
  rw [if_pos ⟨by omega, by omega, by omega, hnano, by omega⟩]
  congr 2
  omega

/-- What a clock shows, from the year down to the nanosecond. -/
def parts (c : ClockReading) : List Int :=
  [c.date.year, c.date.month, c.date.day, c.hour, c.minute, c.secondOfMinute, c.nano]

/-- A reading that is before another one in its parts, compared from the year down, is the earlier one. -/
theorem before_of_parts_lt (hdate : c.date.IsDay) (hsecond : c.second < secondsPerDay) (h : c.parts < c'.parts) :
    c.toInstant.before c'.toInstant = true := by
  have hday (hlt : c.date.days < c'.date.days) : c.toInstant.before c'.toInstant = true := by
    refine decide_eq_true (.inl ?_)
    rw [second_toInstant, second_toInstant]
    unfold secondsPerDay at hsecond
    omega
  unfold parts at h
  simp only [List.cons_lt_cons_iff, List.lt_irrefl, and_false, or_false, Nat.cast_lt, Nat.cast_inj] at h
  rcases h with hyear | ⟨hyear, hmonth | ⟨hmonth, hdaylt | ⟨hdayeq, htime⟩⟩⟩
  · exact hday (hdate.days_lt_of_year_lt hyear)
  · exact hday (hdate.days_lt_of_month_lt hyear hmonth)
  · exact hday (hdate.days_lt_of_day_lt hyear hmonth hdaylt)
  · -- on one day the seconds of the day decide, and then the nanoseconds
    have hsame : c.date = c'.date := by
      obtain ⟨⟨year, month, day⟩, _, _⟩ := c
      exact (Date.mk.injEq ..).mpr ⟨hyear, hmonth, hdayeq⟩
    refine decide_eq_true ?_
    rw [second_toInstant, second_toInstant, hsame]
    unfold hour minute secondOfMinute at htime
    show _ ∨ _ ∧ c.nano < c'.nano
    omega

/-! ## At the prime meridian -/

/-- Read off a clock at the prime meridian, a reading of the calendar means its own instant. -/
theorem instantIn?_utc (hday : c.date.IsDay) (hrange : c.date.inRange = true) (htime : c.IsTime) :
    c.instantIn? Zone.utc = some c.toInstant := by
  have hshift : c.toInstant.shift (-0) = c.toInstant := congrArg (Instant.mk · c.nano) (Int.add_zero _)
  have hinstant : c.toInstant.inRange = true := by
    unfold Instant.inRange
    rwa [clock_toInstant hday htime.second_lt]
  show (if (c.toInstant.shift (-0)).inRange = true then some (c.toInstant.shift (-0)) else none) = _
  rw [hshift, if_pos hinstant]

end ClockReading

/-! ## Instants -/

/-- An instant that is made of a date of the calendar and a time of day by their parts. A leap second is one of them as
the last second of its minute; nothing is made of a second in the middle of a minute that lasts two. -/
def Instant.IsMade (t : Instant) : Prop :=
  ∃ year month day hour minute second nano date clock, Date.ofParts? year month day = some date ∧
    ClockReading.ofParts? date hour minute second nano = some clock ∧ clock.toInstant = t

namespace Instant

variable {t t' : Instant}

theorem IsMade.isReadable (h : t.IsMade) : t.IsReadable := by
  obtain ⟨year, month, day, hour, minute, second, nano, date, c, hdate, hclock, rfl⟩ := h
  obtain ⟨hday, hrange⟩ := Date.ofParts?_spec hdate
  obtain ⟨htime, rfl⟩ := Timestamp.isTime_of_ofParts? hclock
  refine ⟨?_, htime.nano_lt, fun hlong => ?_⟩
  · unfold inRange
    rw [ClockReading.clock_toInstant hday htime.second_lt]
    exact hrange
  · have hlast := htime.leap hlong
    rw [ClockReading.second_toInstant]
    omega

theorem IsReadable.isMade (h : t.IsReadable) : t.IsMade := by
  have hday : t.clock.date.IsDay := Date.isDay_ofDays _
  exact ⟨_, _, _, _, _, _, _, _, _, Date.ofParts?_of_isDay hday h.inRange, h.isTime_clock.ofParts?_eq,
    t.toInstant_clock⟩

/-- What can be read is what can be made of parts. -/
theorem isReadable_iff_isMade : t.IsReadable ↔ t.IsMade := ⟨IsReadable.isMade, IsMade.isReadable⟩

/-- An earlier instant with a fraction of less than a second is also earlier in milliseconds, if the fraction is one of
milliseconds. -/
theorem millis_lt_of_before {m m' : Nat} (h : t.before t' = true) (hnano : t.nano = m * nanosPerMilli)
    (hnano' : t'.nano = m' * nanosPerMilli) (hm : m < 1000) : t.millis < t'.millis := by
  have hbefore : t.second < t'.second ∨ t.second = t'.second ∧ t.nano < t'.nano := of_decide_eq_true h
  unfold millis
  unfold nanosPerMilli at *
  omega

end Instant

end VisualEncoding.Calendar
