import VisualEncoding.Proofs.Calendar.Edges

/-!
# Steps out of the calendar

Boundaries are computed on a clock, and a clock reading can leave the calendar in two places: before the first boundary
there is none to go back to (`Interval.IsBeforeFirst`), and from the last one no step leads on (`Interval.IsFromLast`).
Nowhere else does a computation fail, in a zone whose clocks are behind and keep their offset in the last weeks of the
calendar (`Zone.Lags`):

> `Interval.floor_spec`, `Interval.next_spec`, `Interval.ceil_spec`: a boundary is found, or one of the two ends of the
> calendar is in the way.

What `floor` finds is settled (`Interval.Settled`): near the end of the calendar it is a boundary, so that the next step
fails from the last boundary on and not before. The loop of `range` keeps this up. An interval that counts years by a
number without a remainder has no boundaries at all (`Interval.LacksRemainder`). With those in view too

> `Interval.floor_error_iff`, `Interval.ceil_error_iff`: which fault it is, exactly.
-/

namespace VisualEncoding

open Scalar (CountsExactly)

namespace Calendar

variable {α : Type} [Scalar α]

/-! ## Clocks -/

/-- What the clocks of a zone show at a number of milliseconds, counted in seconds. -/
def Zone.Shows (zone : Zone) (x : α) (reading : ℤ) : Prop :=
  ∃ t, Interval.instantOf? x = some t ∧ t.second + zone.offsetAt t.second = reading

/-- Clocks that are behind by no more than a day. What a reading means is not before the instant at which the clocks
show it, and in the last weeks of the calendar nothing changes. -/
structure Zone.Lags (zone : Zone) : Prop where
  offsetAt_bounds : ∀ second, -86400 ≤ zone.offsetAt second ∧ zone.offsetAt second ≤ 0
  means_bounds : ∀ reading offset, zone.offsetOfReading? reading = some offset →
    -86400 ≤ offset ∧ offset ≤ zone.offsetAt (reading - offset)
  exists_last : ∃ last, (∀ second, calendarEnd - 16 * 86400 ≤ second → second < calendarEnd →
      zone.offsetAt second = last) ∧
    ∀ reading, calendarEnd - 16 * 86400 ≤ reading → reading < calendarEnd → zone.offsetOfReading? reading = some last

theorem Zone.lags_utc : Zone.utc.Lags where
  offsetAt_bounds _ := ⟨by show -86400 ≤ (0 : ℤ); decide, le_rfl⟩
  means_bounds _ _ h := by
    cases h
    exact ⟨by decide, le_rfl⟩
  exists_last := ⟨0, fun _ _ _ => rfl, fun _ _ _ => rfl⟩

theorem Zone.lags_eastern : Zone.eastern.Lags where
  offsetAt_bounds second := by
    have hbounds := Zone.offsetAt_bounds second
    omega
  means_bounds reading offset h := by
    have hbounds := Zone.offsetAt_bounds (reading - offset)
    obtain ⟨year, -, -, hcases⟩ := Zone.offsetOfReading?_cases reading
    rw [h] at hcases
    rcases hcases with ⟨-, hoffset⟩ | ⟨-, -, hoffset⟩ | ⟨hle, hlt, hoffset⟩ | ⟨-, hoffset⟩
    · cases hoffset
      exact ⟨by decide, hbounds.1⟩
    · nomatch hoffset
    · cases hoffset
      have hafter : Zone.springForward year + 18000 ≤ reading - -14400 := by omega
      exact ⟨by decide, (Zone.offsetAt_of_daylight hafter (by omega)).ge⟩
    · cases hoffset
      exact ⟨by decide, hbounds.1⟩
  exists_last := by
    have hchanges := Zone.changes_within greatestYear
    have hend : calendarEnd = Zone.yearStart (greatestYear + 1) := rfl
    refine ⟨-18000, fun second hle hlt => ?_, fun reading hle hlt => ?_⟩
    · obtain ⟨year, hstart, hstop, hcases⟩ := Zone.offsetAt_cases second
      rcases Zone.yearStart_cases year greatestYear with rfl | hyears
      · omega
      · omega
    · obtain ⟨year, hstart, hstop, hcases⟩ := Zone.offsetOfReading?_cases reading
      rcases Zone.yearStart_cases year greatestYear with rfl | hyears
      · rcases hcases with ⟨hbefore, -⟩ | ⟨-, hbefore, -⟩ | ⟨-, hbefore, -⟩ | ⟨-, hoffset⟩
        · omega
        · omega
        · omega
        · exact hoffset
      · omega

theorem Zone.lags_ofLocal (isLocal : Bool) : (Zone.ofLocal isLocal).Lags := by
  cases isLocal with
  | false => exact Zone.lags_utc
  | true => exact Zone.lags_eastern

namespace Interval

/-- An instant that milliseconds count lies in the calendar and is no leap second. -/
theorem instantOf?_spec {x : α} {t : Instant} (h : instantOf? x = some t) :
    calendarStart ≤ t.second ∧ t.second < calendarEnd ∧ t.nano < nanosPerSecond := by
  unfold instantOf? Instant.ofMillis? at h
  split at h
  · dsimp only at h
    split at h
    next hrange =>
      cases h
      obtain ⟨hle, hlt⟩ := (Instant.inRange_iff _).mp hrange
      refine ⟨hle, hlt, ?_⟩
      dsimp only
      unfold nanosPerMilli nanosPerSecond
      omega
    next => nomatch h
  · nomatch h

/-- The milliseconds of an instant lead back to its second. -/
theorem instantOf?_millis [CountsExactly α] {t : Instant} (hrange : t.inRange = true)
    (hnano : t.nano < nanosPerSecond) :
    ∃ t', instantOf? (Scalar.ofInt t.millis : α) = some t' ∧ t'.second = t.second := by
  obtain ⟨hle, hlt⟩ := t.inRange_iff.mp hrange
  have hstart := calendarStart_eq
  have hend := calendarEnd_eq
  have hmillis : t.millis = t.second * 1000 + (t.nano / 1000000 : ℕ) := rfl
  unfold nanosPerSecond at hnano
  have hsecond : t.millis / 1000 = t.second := by omega
  refine ⟨⟨t.second, (t.millis % 1000).toNat * nanosPerMilli⟩,
    instantOf?_ofInt (abs_le.mpr ⟨by omega, by omega⟩) ?_, rfl⟩
  unfold Instant.ofMillis?
  dsimp only
  rw [hsecond]
  exact if_pos ((Instant.inRange_iff _).mpr ⟨hle, hlt⟩)

end Interval

namespace Zone

variable {zone : Zone} {x : α} {reading reading' : ℤ} {b : ClockReading} {t : Instant}

theorem Shows.eq (h : zone.Shows x reading) (h' : zone.Shows x reading') : reading = reading' := by
  obtain ⟨t, ht, rfl⟩ := h
  obtain ⟨t', ht', rfl⟩ := h'
  cases ht.symm.trans ht'
  rfl

theorem not_shows_of_instantOf?_eq_none (h : Interval.instantOf? x = none) : ¬ zone.Shows x reading := by
  rintro ⟨t, ht, -⟩
  exact nomatch h.symm.trans ht

theorem Shows.lt_calendarEnd (h : zone.Shows x reading) (hzone : zone.Lags) : reading < calendarEnd := by
  obtain ⟨t, ht, rfl⟩ := h
  obtain ⟨-, hlt, -⟩ := Interval.instantOf?_spec ht
  have hbounds := hzone.offsetAt_bounds t.second
  omega

/-- The clocks show no less than a reading at the instant that it means, and near the end of the calendar just that. -/
theorem Lags.shows_of_instantIn? [CountsExactly α] (hzone : zone.Lags) (hb : b.IsRegular)
    (h : b.instantIn? zone = some t) :
    ∃ reading, zone.Shows (Scalar.ofInt t.millis : α) reading ∧ b.toInstant.second ≤ reading ∧
      (calendarEnd - 15 * 86400 ≤ reading → reading = b.toInstant.second) := by
  obtain ⟨offset, hoffset, hif⟩ := Option.bind_eq_some_iff.mp h
  dsimp only at hif
  split at hif
  next hrange =>
    cases hif
    obtain ⟨t', ht', hsecond⟩ := Interval.instantOf?_millis (α := α) hrange hb.nano_lt
    have hshift : (b.toInstant.shift (-offset)).second = b.toInstant.second - offset := rfl
    obtain ⟨hlo, hle⟩ := hzone.means_bounds _ _ hoffset
    have hbounds := hzone.offsetAt_bounds (b.toInstant.second - offset)
    obtain ⟨-, hlt, -⟩ := Interval.instantOf?_spec ht'
    refine ⟨_, ⟨t', ht', rfl⟩, by rw [hsecond, hshift]; omega, fun hlate => ?_⟩
    obtain ⟨last, hshown, hread⟩ := hzone.exists_last
    rw [hsecond, hshift] at hlt hlate ⊢
    have hoffset' := hread b.toInstant.second (by omega) (by omega)
    cases hoffset.symm.trans hoffset'
    rw [hshown _ (by omega) hlt]
    omega
  next => nomatch hif

/-- In the last weeks of the calendar a reading that is not after what the clocks show means an instant. -/
theorem Lags.exists_instantIn? (hzone : zone.Lags) (hlate : calendarEnd - 16 * 86400 ≤ b.toInstant.second)
    (hshows : zone.Shows x reading) (hle : b.toInstant.second ≤ reading) : ∃ t, b.instantIn? zone = some t := by
  obtain ⟨t, ht, rfl⟩ := hshows
  obtain ⟨-, hlt, -⟩ := Interval.instantOf?_spec ht
  obtain ⟨last, hshown, hread⟩ := hzone.exists_last
  have hbounds := hzone.offsetAt_bounds t.second
  have hoffset := hshown t.second (by omega) hlt
  have hstart := calendarStart_eq
  have hend := calendarEnd_eq
  refine ⟨b.toInstant.shift (-last), ?_⟩
  unfold ClockReading.instantIn?
  rw [hread _ hlate (by omega)]
  refine if_pos ((Instant.inRange_iff _).mpr ?_)
  show calendarStart ≤ b.toInstant.second + -last ∧ b.toInstant.second + -last < calendarEnd
  omega

end Zone

namespace Interval

variable {i : Interval} {zone : Zone} {x m stop : α} {reading : ℤ}
  {move : ClockReading → Except IntervalFault (Option ClockReading)}

/-! ## Moving the clock -/

/-- Where moving the clock leads: to the instant that the reading means, or nowhere. -/
def landing (zone : Zone) (x : α) (moved? : Option ClockReading) : α :=
  ((moved?.bind (·.instantIn? zone)).map fun t => Scalar.ofInt t.millis).getD x

theorem moveOnClock_of_instantOf?_eq_none (h : instantOf? x = none) : moveOnClock move zone x = .ok x := by
  unfold moveOnClock
  rw [h]

theorem moveOnClock_of_lt (hshows : zone.Shows x reading) (h : reading < calendarStart) :
    moveOnClock move zone x = .error .outsideCalendar := by
  obtain ⟨t, ht, rfl⟩ := hshows
  have hclock : t.clockIn? zone = none := by
    refine if_neg fun hrange => ?_
    have hshown : calendarStart ≤ t.second + zone.offsetAt t.second := ((Instant.inRange_iff _).mp hrange).1
    omega
  unfold moveOnClock
  rw [ht]
  dsimp only
  rw [hclock]
  rfl

/-- From a reading of the calendar on it is the move alone that can fail. -/
theorem exists_clock (hzone : zone.Lags) (hshows : zone.Shows x reading) (h : calendarStart ≤ reading) :
    ∃ c : ClockReading, c.IsRegular ∧ c.toInstant.second = reading ∧
      ∀ move, moveOnClock move zone x = (move c).map (landing zone x) := by
  have hlt := hshows.lt_calendarEnd hzone
  obtain ⟨t, ht, rfl⟩ := hshows
  obtain ⟨hday, hless, -, hsecond⟩ := (t.shift (zone.offsetAt t.second)).clock_spec
  have hclock : t.clockIn? zone = some (t.shift (zone.offsetAt t.second)).clock :=
    if_pos ((Instant.inRange_iff _).mpr ⟨h, hlt⟩)
  refine ⟨_, ⟨hday, hless, (instantOf?_spec ht).2.2⟩, hsecond, fun move => ?_⟩
  unfold moveOnClock
  rw [ht]
  dsimp only
  rw [hclock]
  show (move _).bind _ = _
  cases move (t.shift (zone.offsetAt t.second)).clock with
  | error fault => rfl
  | ok moved? =>
    unfold landing
    simp only [Except.bind, Except.map]
    cases moved?.bind (·.instantIn? zone) <;> rfl

/-- A move that leads on leads to where the clocks show the reading, or a later one far from the end of the calendar. -/
theorem landing_cases [CountsExactly α] (hzone : zone.Lags) (x : α) {moved? : Option ClockReading}
    (h : ∀ moved ∈ moved?, moved.IsRegular) :
    ((∀ moved ∈ moved?, moved.instantIn? zone = none) ∧ landing zone x moved? = x) ∨
      ∃ moved ∈ moved?, ∃ reading, zone.Shows (landing zone x moved?) reading ∧ moved.toInstant.second ≤ reading ∧
        (calendarEnd - 15 * 86400 ≤ reading → reading = moved.toInstant.second) := by
  unfold landing
  cases hback : moved?.bind (·.instantIn? zone) with
  | none => exact .inl ⟨Option.bind_eq_none_iff.mp hback, rfl⟩
  | some t =>
    obtain ⟨moved, hmoved, ht⟩ := Option.bind_eq_some_iff.mp hback
    exact .inr ⟨moved, hmoved, hzone.shows_of_instantIn? (h moved hmoved) ht⟩

/-! ## Boundaries at the ends of the calendar -/

/-- The clocks show a reading before the first boundary of the calendar. -/
def IsBeforeFirst (i : Interval) (zone : Zone) (x : α) : Prop :=
  i.unit ≠ .millisecond ∧ ∃ reading, zone.Shows x reading ∧ reading < i.firstBoundary

/-- The clocks show the last boundary of the calendar or a later reading. -/
def IsFromLast (i : Interval) (zone : Zone) (x : α) : Prop :=
  ∃ reading last, zone.Shows x reading ∧ i.lastBoundary? = some last ∧ last ≤ reading

/-- The clocks show no reading before the first boundary, and one that a step leads out of the calendar from is not
before the last. -/
def Settled (i : Interval) (zone : Zone) (x : α) : Prop :=
  i.unit ≠ .millisecond → ∀ reading, zone.Shows x reading → i.firstBoundary ≤ reading ∧
    ∀ n last, i.stepSeconds? = some n → i.lastBoundary? = some last → calendarEnd ≤ reading + n → last ≤ reading

theorem lastBoundary?_of_stepSeconds?_eq_none (h : i.stepSeconds? = none) : i.lastBoundary? = none := by
  unfold lastBoundary?
  rw [h]
  rfl

theorem not_isFromLast_of_stepSeconds?_eq_none (h : i.stepSeconds? = none) : ¬ i.IsFromLast zone x := by
  rintro ⟨_, _, -, hlast, -⟩
  rw [lastBoundary?_of_stepSeconds?_eq_none h] at hlast
  nomatch hlast

theorem stepSeconds?_of_millisecond (h : i.unit = .millisecond) : i.stepSeconds? = none := by
  unfold stepSeconds?
  rw [h]

theorem exists_lastBoundary? {n : ℕ} (h : i.stepSeconds? = some n) : ∃ last, i.lastBoundary? = some last := by
  unfold lastBoundary?
  rw [h]
  exact ⟨_, rfl⟩

theorem not_isBeforeFirst_of_millisecond (h : i.unit = .millisecond) : ¬ i.IsBeforeFirst zone x :=
  fun hbefore => hbefore.1 h

theorem settled_of_millisecond (h : i.unit = .millisecond) : i.Settled zone x := fun hunit => absurd h hunit

variable [CountsExactly α]

/-- Where steps count months or years, a boundary is settled if it is not before the first. -/
theorem settled_landing_of_stepSeconds?_eq_none (hstep : i.stepSeconds? = none) (hzone : zone.Lags)
    (hshows : zone.Shows x reading) (hfirst : i.firstBoundary ≤ reading) {b? : Option ClockReading}
    (hb? : ∀ b ∈ b?, b.IsWhole ∧ i.firstBoundary ≤ b.toInstant.second) : i.Settled zone (landing zone x b?) := by
  refine fun _ reading' hshows' => ⟨?_, fun n _ hn => nomatch hstep.symm.trans hn⟩
  rcases landing_cases hzone x fun b hb => (hb? b hb).1.isRegular with ⟨-, heq⟩ | ⟨b, hb, reading'', hshows'', hle, -⟩
  · rw [heq] at hshows'
    rwa [hshows'.eq hshows]
  · rw [hshows'.eq hshows'']
    exact (hb? b hb).2.trans hle

/-- Where steps take seconds, the boundary of a reading is settled and as near the last one as the reading is. -/
theorem settled_landing_of_stepSeconds? (hi : i.KeepsToCalendar) (hstep : i.stepSeconds? = some n) (hzone : zone.Lags)
    (hshows : zone.Shows x reading) (hfirst : i.firstBoundary ≤ reading) {c : ClockReading} (hc : c.IsRegular)
    (hsecond : c.toInstant.second = reading) :
    ∃ b, i.startOf c = .ok (some b) ∧ i.Settled zone (landing zone x (some b)) ∧
      (i.IsFromLast zone (landing zone x (some b)) ↔ i.IsFromLast zone x) := by
  have hbefore := hshows.lt_calendarEnd hzone
  obtain ⟨last, hlast⟩ := exists_lastBoundary? hstep
  obtain ⟨hfew, hreach⟩ := hi.lastBoundary n last hstep hlast
  obtain ⟨b, hstart, hle, hlt, hlate⟩ := hi.startOf_last n last hstep hlast c hc (by omega) (by omega)
  obtain ⟨b?, hstart', hb?⟩ := hi.startOf c hc (by omega) (by omega)
  cases hstart.symm.trans hstart'
  obtain ⟨hwhole, hfirst'⟩ := hb? b rfl
  refine ⟨b, hstart, ?_⟩
  rcases landing_cases hzone x fun b hb => (hb? b hb).1.isRegular with
    ⟨hnone, heq⟩ | ⟨_, hmem, reading', hshows', hle', hend⟩
  · -- the boundary means no instant, which happens only far from the end of the calendar
    have hfar : reading + n < calendarEnd := by
      by_contra hnear
      obtain ⟨t, ht⟩ := hzone.exists_instantIn? (b := b) (by omega) hshows (by omega)
      exact nomatch (hnone b rfl).symm.trans ht
    rw [heq]
    refine ⟨fun _ reading' hshows' => ?_, Iff.rfl⟩
    rw [hshows'.eq hshows]
    refine ⟨hfirst, fun n' _ hn' _ hover => ?_⟩
    cases hstep.symm.trans hn'
    omega
  · cases hmem
    refine ⟨fun _ reading'' hshows'' => ?_, ?_, ?_⟩
    · rw [hshows''.eq hshows']
      refine ⟨hfirst'.trans hle', fun n' last' hn' hlast' hover => ?_⟩
      cases hstep.symm.trans hn'
      cases hlast.symm.trans hlast'
      have hsame := hend (by omega)
      have := hlate (.inr (by omega))
      omega
    · rintro ⟨reading'', last', hshows'', hlast', hge⟩
      cases hlast.symm.trans hlast'
      rw [hshows''.eq hshows'] at hge
      have hsame := hend (by omega)
      exact ⟨reading, last, hshows, hlast, by omega⟩
    · rintro ⟨reading'', last', hshows'', hlast', hge⟩
      cases hlast.symm.trans hlast'
      rw [hshows''.eq hshows] at hge
      have := hlate (.inl (by omega))
      exact ⟨reading', last, hshows', hlast, by omega⟩

/-- A boundary is found from every reading that is not before the first, and is no less near the last. -/
theorem floor_of_not_isBeforeFirst (hi : i.KeepsToCalendar) (hunit : i.unit ≠ .millisecond) (hzone : zone.Lags)
    (hshows : zone.Shows x reading) (hfirst : i.firstBoundary ≤ reading) :
    ∃ m, i.floor zone x = .ok m ∧ i.Settled zone m ∧ (i.IsFromLast zone m ↔ i.IsFromLast zone x) := by
  have hbefore := hshows.lt_calendarEnd hzone
  obtain ⟨c, hc, hsecond, hmove⟩ := exists_clock hzone hshows (i.le_firstBoundary.trans hfirst)
  have hfloor : ∀ b?, i.startOf c = .ok b? → i.floor zone x = .ok (landing zone x b?) := by
    intro b? hstart
    rw [floor_of_not_millisecond hunit, hmove, hstart]
    rfl
  cases hstep : i.stepSeconds? with
  | none =>
    obtain ⟨b?, hstart, hb?⟩ := hi.startOf c hc (by omega) (by omega)
    exact ⟨_, hfloor b? hstart, settled_landing_of_stepSeconds?_eq_none hstep hzone hshows hfirst hb?,
      iff_of_false (not_isFromLast_of_stepSeconds?_eq_none hstep) (not_isFromLast_of_stepSeconds?_eq_none hstep)⟩
  | some n =>
    obtain ⟨b, hstart, hlanding⟩ := settled_landing_of_stepSeconds? hi hstep hzone hshows hfirst hc hsecond
    exact ⟨_, hfloor _ hstart, hlanding⟩

theorem not_isBeforeFirst_of_instantOf?_eq_none (ht : instantOf? x = none) : ¬ i.IsBeforeFirst zone x := by
  rintro ⟨-, _, hshows, -⟩
  exact Zone.not_shows_of_instantOf?_eq_none ht hshows

theorem not_isFromLast_of_instantOf?_eq_none (ht : instantOf? x = none) : ¬ i.IsFromLast zone x := by
  rintro ⟨_, _, hshows, -⟩
  exact Zone.not_shows_of_instantOf?_eq_none ht hshows

/-- A boundary is found that is settled, unless the reading is before the first boundary. -/
theorem floor_spec (hi : i.unit ≠ .millisecond → i.KeepsToCalendar) (hzone : zone.Lags) (x : α) :
    i.IsBeforeFirst zone x ∧ i.floor zone x = .error .outsideCalendar ∨
      ¬ i.IsBeforeFirst zone x ∧
        ∃ m, i.floor zone x = .ok m ∧ i.Settled zone m ∧ (i.IsFromLast zone m ↔ i.IsFromLast zone x) := by
  by_cases hunit : i.unit = .millisecond
  · have hnone := stepSeconds?_of_millisecond hunit
    exact .inr ⟨not_isBeforeFirst_of_millisecond hunit, _, floor_of_millisecond hunit zone x,
      settled_of_millisecond hunit,
      iff_of_false (not_isFromLast_of_stepSeconds?_eq_none hnone) (not_isFromLast_of_stepSeconds?_eq_none hnone)⟩
  have hfloor := floor_of_not_millisecond hunit zone x
  cases ht : instantOf? x with
  | none =>
    refine .inr ⟨not_isBeforeFirst_of_instantOf?_eq_none ht, x,
      hfloor.trans (moveOnClock_of_instantOf?_eq_none ht), ?_, Iff.rfl⟩
    intro _ _ hshows
    exact absurd hshows (Zone.not_shows_of_instantOf?_eq_none ht)
  | some t =>
    have hshows : zone.Shows x (t.second + zone.offsetAt t.second) := ⟨t, ht, rfl⟩
    by_cases hfirst : i.firstBoundary ≤ t.second + zone.offsetAt t.second
    · refine .inr ⟨?_, floor_of_not_isBeforeFirst (hi hunit) hunit hzone hshows hfirst⟩
      rintro ⟨-, reading, hshows', hlt⟩
      have := hshows'.eq hshows
      omega
    · refine .inl ⟨⟨hunit, _, hshows, Int.not_le.mp hfirst⟩, ?_⟩
      by_cases hstart : t.second + zone.offsetAt t.second < calendarStart
      · exact hfloor.trans (moveOnClock_of_lt hshows hstart)
      · obtain ⟨c, hc, hsecond, hmove⟩ := exists_clock hzone hshows (Int.not_lt.mp hstart)
        rw [hfloor, hmove, (hi hunit).startOf_of_lt c hc (by omega) (by omega)]
        rfl

/-- A clock that is moved on from the first boundary or later lands on no reading before it. -/
theorem not_isBeforeFirst_landing (hzone : zone.Lags) (hshows : zone.Shows m reading)
    (hfirst : i.firstBoundary ≤ reading) {moved? : Option ClockReading}
    (hmoved : ∀ moved ∈ moved?, moved.IsRegular ∧ i.firstBoundary ≤ moved.toInstant.second) :
    ¬ i.IsBeforeFirst zone (landing zone m moved?) := by
  rintro ⟨-, reading', hshows', hlt⟩
  rcases landing_cases hzone m fun b hb => (hmoved b hb).1 with ⟨-, heq⟩ | ⟨b, hb, reading'', hshows'', hle, -⟩
  · rw [heq] at hshows'
    have := hshows'.eq hshows
    omega
  · have := hshows'.eq hshows''
    have := (hmoved b hb).2
    omega

/-- From what is settled a step leads on to a reading that is not before the first boundary, unless it is the last
boundary. -/
theorem advance_spec (hi : i.unit ≠ .millisecond → i.KeepsToCalendar) (hzone : zone.Lags) (hm : i.Settled zone m) :
    i.IsFromLast zone m ∧ i.advance zone m = .error .outsideCalendar ∨
      ¬ i.IsFromLast zone m ∧ ∃ later, i.advance zone m = .ok later ∧ ¬ i.IsBeforeFirst zone later := by
  by_cases hunit : i.unit = .millisecond
  · exact .inr ⟨not_isFromLast_of_stepSeconds?_eq_none (stepSeconds?_of_millisecond hunit), _,
      advance_of_millisecond hunit zone m, not_isBeforeFirst_of_millisecond hunit⟩
  have hadvance := advance_of_not_millisecond hunit zone m
  cases ht : instantOf? m with
  | none =>
    exact .inr ⟨not_isFromLast_of_instantOf?_eq_none ht, m,
      hadvance.trans (moveOnClock_of_instantOf?_eq_none ht), not_isBeforeFirst_of_instantOf?_eq_none ht⟩
  | some t =>
    have hshows : zone.Shows m (t.second + zone.offsetAt t.second) := ⟨t, ht, rfl⟩
    generalize t.second + zone.offsetAt t.second = reading at hshows
    obtain ⟨hfirst, hover⟩ := hm hunit reading hshows
    obtain ⟨c, hc, hsecond, hmove⟩ := exists_clock hzone hshows (i.le_firstBoundary.trans hfirst)
    cases hstep : i.stepSeconds? with
    | none =>
      obtain ⟨later?, hlater, hregular⟩ := oneStepAfter_of_stepSeconds?_eq_none hstep hunit hc
      rw [← firstBoundary_of_stepSeconds?_eq_none hstep] at hregular
      refine .inr ⟨not_isFromLast_of_stepSeconds?_eq_none hstep, landing zone m later?, ?_,
        not_isBeforeFirst_landing hzone hshows hfirst hregular⟩
      rw [hadvance, hmove, hlater]
      rfl
    | some n =>
      obtain ⟨last, hlast⟩ := exists_lastBoundary? hstep
      obtain ⟨-, hreach⟩ := (hi hunit).lastBoundary n last hstep hlast
      have hnext := oneStepAfter_of_stepSeconds? hstep c
      by_cases hend : calendarEnd ≤ reading + n
      · refine .inl ⟨⟨reading, last, hshows, hlast, hover n last hstep hlast hend⟩, ?_⟩
        rw [hadvance, hmove, hnext, hc.addSeconds?_of_le (by omega)]
        rfl
      · obtain ⟨later, hlater, hregular, hlatersecond⟩ := hc.addSeconds?_of_lt (n := n)
          (by have := i.le_firstBoundary; omega) (by omega)
        refine .inr ⟨?_, landing zone m (some later), ?_, not_isBeforeFirst_landing hzone hshows hfirst ?_⟩
        · rintro ⟨reading', last', hshows', hlast', hge⟩
          cases hlast.symm.trans hlast'
          have := hshows'.eq hshows
          omega
        · rw [hadvance, hmove, hnext, hlater]
          rfl
        · intro moved hmoved
          cases hmoved
          exact ⟨hregular, by omega⟩

theorem next_spec (hi : i.unit ≠ .millisecond → i.KeepsToCalendar) (hzone : zone.Lags) (hm : i.Settled zone m) :
    i.IsFromLast zone m ∧ i.next zone m = .error .outsideCalendar ∨
      ¬ i.IsFromLast zone m ∧ ∃ after, i.next zone m = .ok after ∧ i.Settled zone after := by
  unfold next
  rcases advance_spec hi hzone hm with ⟨hlast, hadvance⟩ | ⟨hlast, later, hadvance, hlater⟩
  · rw [hadvance]
    exact .inl ⟨hlast, rfl⟩
  · rw [hadvance]
    rcases floor_spec hi hzone later with ⟨hbefore, -⟩ | ⟨-, after, hfloor, hsettled, -⟩
    · exact absurd hbefore hlater
    · exact .inr ⟨hlast, after, hfloor, hsettled⟩

theorem ceil_spec (hi : i.unit ≠ .millisecond → i.KeepsToCalendar) (hzone : zone.Lags) (x : α) :
    (i.IsBeforeFirst zone (x - 1) ∨ i.IsFromLast zone (x - 1)) ∧ i.ceil zone x = .error .outsideCalendar ∨
      ¬ (i.IsBeforeFirst zone (x - 1) ∨ i.IsFromLast zone (x - 1)) ∧
        ∃ m, i.ceil zone x = .ok m ∧ i.Settled zone m := by
  unfold ceil
  rcases floor_spec hi hzone (x - 1) with ⟨hbefore, hfloor⟩ | ⟨hbefore, m, hfloor, hm, hlast⟩
  · rw [hfloor]
    exact .inl ⟨.inl hbefore, rfl⟩
  · rw [hfloor]
    rcases next_spec hi hzone hm with ⟨hfrom, hnext⟩ | ⟨hfrom, after, hnext, hsettled⟩
    · exact .inl ⟨.inr (hlast.mp hfrom), hnext⟩
    · exact .inr ⟨not_or.mpr ⟨hbefore, fun hx => hfrom (hlast.mpr hx)⟩, after, hnext, hsettled⟩

/-! ## Ranges -/

/-- The loop fails at the last boundary of the calendar only, if it comes so far before it stops. -/
theorem rangeFrom_error (hi : i.unit ≠ .millisecond → i.KeepsToCalendar) (hzone : zone.Lags) {fault : IntervalFault}
    (limit : ℕ) {current : α} (hcurrent : i.Settled zone current)
    (h : i.rangeFrom zone stop limit current = .error fault) :
    fault = .outsideCalendar ∧ ∃ last, last ≤ stop ∧ i.IsFromLast zone last := by
  induction limit generalizing current with
  | zero => nomatch h
  | succ limit ih =>
    unfold rangeFrom at h
    by_cases hwithin : current ≤ stop
    · rw [if_pos hwithin] at h
      rcases next_spec hi hzone hcurrent with ⟨hlast, hnext⟩ | ⟨-, after, hnext, hafter⟩
      · rw [hnext] at h
        cases h
        exact ⟨rfl, current, hwithin, hlast⟩
      · rw [hnext] at h
        simp only [bind, Except.bind] at h
        split at h
        · nomatch h
        · -- the rest of the list is what fails
          cases hrest : i.rangeFrom zone stop limit after with
          | error fault' =>
            rw [hrest] at h
            cases h
            exact ih hafter hrest
          | ok rest =>
            rw [hrest] at h
            nomatch h
    · rw [if_neg hwithin] at h
      nomatch h

theorem range_error (hi : i.unit ≠ .millisecond → i.KeepsToCalendar) (hzone : zone.Lags) {fault : IntervalFault}
    {start : α} (h : i.range zone start stop = .error fault) :
    fault = .outsideCalendar ∧ (i.IsBeforeFirst zone (start - 1) ∨ i.IsFromLast zone (start - 1) ∨
      ∃ last, last ≤ stop ∧ i.IsFromLast zone last) := by
  unfold range at h
  rcases ceil_spec hi hzone start with ⟨hedge, hceil⟩ | ⟨-, first, hceil, hfirst⟩
  · rw [hceil] at h
    cases h
    exact ⟨rfl, hedge.imp_right .inl⟩
  · rw [hceil] at h
    obtain ⟨rfl, hlast⟩ := rangeFrom_error hi hzone rangeLimit hfirst h
    exact ⟨rfl, .inr (.inr hlast)⟩

/-! ## Which fault it is -/

section

omit [CountsExactly α]

/-- The interval counts years, by a number of which no remainder can be taken. -/
structure LacksRemainder (i : Interval) : Prop where
  unit_eq : i.unit = .year
  shortStep_eq : i.shortStep = 0

/-- Why `floor` finds no boundary: the clocks show a reading before the first boundary, or any reading of the calendar
if no remainder can be taken. -/
def NoFloor (i : Interval) (zone : Zone) (x : α) : IntervalFault → Prop
  | .outsideCalendar => i.IsBeforeFirst zone x
  | .noRemainder => i.LacksRemainder ∧ ∃ reading, zone.Shows x reading ∧ calendarStart ≤ reading

/-- Why `ceil` finds no boundary: it looks for the one after the boundary of a millisecond before. -/
def NoCeil (i : Interval) (zone : Zone) (x : α) (fault : IntervalFault) : Prop :=
  i.NoFloor zone (x - 1) fault ∨ fault = .outsideCalendar ∧ i.IsFromLast zone (x - 1)

theorem LacksRemainder.stepSeconds?_eq_none (h : i.LacksRemainder) : i.stepSeconds? = none := by
  unfold stepSeconds?
  rw [h.unit_eq]

theorem LacksRemainder.unit_ne (h : i.LacksRemainder) : i.unit ≠ .millisecond := by
  rw [h.unit_eq]
  nofun

/-- Without a remainder there is no boundary below an instant. -/
theorem LacksRemainder.floor_of_shows (h : i.LacksRemainder) (hzone : zone.Lags) (hshows : zone.Shows x reading) :
    i.floor zone x = .error (if reading < calendarStart then .outsideCalendar else .noRemainder) := by
  have hfloor := floor_of_not_millisecond h.unit_ne zone x
  split
  next hstart => rw [hfloor, moveOnClock_of_lt hshows hstart]
  next hstart =>
    obtain ⟨c, -, -, hmove⟩ := exists_clock hzone hshows (Int.not_lt.mp hstart)
    have hc : i.startOf c = .error .noRemainder := by
      unfold startOf
      rw [h.unit_eq]
      exact if_pos h.shortStep_eq
    rw [hfloor, hmove, hc]
    rfl

theorem LacksRemainder.floor_of_instantOf?_eq_none (h : i.LacksRemainder) (zone : Zone) (ht : instantOf? x = none) :
    i.floor zone x = .ok x :=
  (floor_of_not_millisecond h.unit_ne zone x).trans (moveOnClock_of_instantOf?_eq_none ht)

theorem LacksRemainder.floor_error_iff (h : i.LacksRemainder) (hzone : zone.Lags) {fault : IntervalFault} :
    i.floor zone x = .error fault ↔ i.NoFloor zone x fault := by
  cases ht : instantOf? x with
  | none =>
    have hnone : ∀ reading, ¬ zone.Shows x reading := fun _ => Zone.not_shows_of_instantOf?_eq_none ht
    rw [h.floor_of_instantOf?_eq_none zone ht]
    refine iff_of_false nofun ?_
    cases fault with
    | outsideCalendar => exact fun ⟨_, reading, hshows, _⟩ => hnone reading hshows
    | noRemainder => exact fun ⟨_, reading, hshows, _⟩ => hnone reading hshows
  | some t =>
    have hshows : zone.Shows x (t.second + zone.offsetAt t.second) := ⟨t, ht, rfl⟩
    have hfirst : i.firstBoundary = calendarStart := firstBoundary_of_stepSeconds?_eq_none h.stepSeconds?_eq_none
    rw [h.floor_of_shows hzone hshows]
    generalize t.second + zone.offsetAt t.second = reading at hshows
    have hsame := fun reading' (hshows' : zone.Shows x reading') => hshows'.eq hshows
    cases fault with
    | outsideCalendar =>
      constructor
      · intro herror
        refine ⟨h.unit_ne, reading, hshows, ?_⟩
        by_contra hle
        rw [if_neg (by omega)] at herror
        nomatch herror
      · rintro ⟨-, reading', hshows', hlt⟩
        have := hsame reading' hshows'
        rw [if_pos (by omega)]
    | noRemainder =>
      constructor
      · intro herror
        refine ⟨h, reading, hshows, ?_⟩
        by_contra hlt
        rw [if_pos (by omega)] at herror
        nomatch herror
      · rintro ⟨-, reading', hshows', hle⟩
        have := hsame reading' hshows'
        rw [if_neg (by omega)]

end

/-- An interval that keeps to the calendar has a remainder wherever one is taken. -/
theorem not_noFloor_noRemainder (hi : i.unit ≠ .millisecond → i.KeepsToCalendar) (hzone : zone.Lags) :
    ¬ i.NoFloor zone x .noRemainder := by
  rintro ⟨h, reading, hshows, hstart⟩
  have hfault : i.floor zone x = .error .noRemainder :=
    (h.floor_error_iff hzone).mpr ⟨h, reading, hshows, hstart⟩
  rcases floor_spec hi hzone x with ⟨-, hfloor⟩ | ⟨-, m, hfloor, -⟩
  · exact nomatch hfloor.symm.trans hfault
  · exact nomatch hfloor.symm.trans hfault

variable {fault : IntervalFault}

/-- **When `floor` fails.** -/
theorem floor_error_iff (hi : (i.unit ≠ .millisecond → i.KeepsToCalendar) ∨ i.LacksRemainder) (hzone : zone.Lags) :
    i.floor zone x = .error fault ↔ i.NoFloor zone x fault := by
  rcases hi with hi | hi
  · have hnone := not_noFloor_noRemainder (x := x) hi hzone
    rcases floor_spec hi hzone x with ⟨hbefore, hfloor⟩ | ⟨hbefore, m, hfloor, -⟩
    · rw [hfloor]
      cases fault with
      | outsideCalendar => exact iff_of_true rfl hbefore
      | noRemainder => exact iff_of_false nofun hnone
    · rw [hfloor]
      cases fault with
      | outsideCalendar => exact iff_of_false nofun hbefore
      | noRemainder => exact iff_of_false nofun hnone
  · exact hi.floor_error_iff hzone

/-- **When `ceil` fails.** -/
theorem ceil_error_iff (hi : (i.unit ≠ .millisecond → i.KeepsToCalendar) ∨ i.LacksRemainder) (hzone : zone.Lags) :
    i.ceil zone x = .error fault ↔ i.NoCeil zone x fault := by
  have hfloor : i.floor zone (x - 1) = .error fault ↔ i.NoFloor zone (x - 1) fault := floor_error_iff hi hzone
  rcases hi with hi | hi
  · have hnone := not_noFloor_noRemainder (x := x - 1) hi hzone
    rcases ceil_spec hi hzone x with ⟨hedge, hceil⟩ | ⟨hedge, m, hceil, -⟩
    · rw [hceil]
      cases fault with
      | outsideCalendar => exact iff_of_true rfl (hedge.imp_right fun hlast => ⟨rfl, hlast⟩)
      | noRemainder => exact iff_of_false nofun (not_or.mpr ⟨hnone, fun hlast => nomatch hlast.1⟩)
    · rw [hceil]
      refine iff_of_false nofun ?_
      rintro (hbefore | ⟨-, hlast⟩)
      · cases fault with
        | outsideCalendar => exact hedge (.inl hbefore)
        | noRemainder => exact hnone hbefore
      · exact hedge (.inr hlast)
  · have hlast : ¬ (fault = .outsideCalendar ∧ i.IsFromLast zone (x - 1)) := fun h =>
      not_isFromLast_of_stepSeconds?_eq_none hi.stepSeconds?_eq_none h.2
    unfold NoCeil ceil
    rw [or_iff_left hlast, ← hfloor]
    cases ht : instantOf? (x - 1) with
    | none =>
      -- a number that is no instant stays where it is, one step on too
      have hok := hi.floor_of_instantOf?_eq_none zone ht
      have hadvance := advance_of_not_millisecond hi.unit_ne zone (x - 1)
      rw [moveOnClock_of_instantOf?_eq_none ht] at hadvance
      rw [hok]
      show i.next zone (x - 1) = _ ↔ _
      unfold next
      rw [hadvance]
      show i.floor zone (x - 1) = _ ↔ _
      rw [hok]
    | some t =>
      rw [hi.floor_of_shows hzone ⟨t, ht, rfl⟩]
      rfl

end Interval

end Calendar

end VisualEncoding
