import VisualEncoding.Proofs.Calendar.Boundaries
import VisualEncoding.Proofs.Calendar.Intervals
import VisualEncoding.Proofs.Scalar.Wholes

/-!
# Boundaries on the line of milliseconds

Counted in whole milliseconds, the readings of a tile are a stretch of the line of milliseconds (`Interval.Stretch`):
`floor` takes all of it to where it starts, and `next` from there to where it ends. So no boundary lies inside, and
whoever has the stretch of a millisecond has the boundaries around it. That needs numbers that count integers exactly,
as doubles and those of exact arithmetic do (`Scalar.CountsExactly`): milliseconds of the calendar take 53 bits.

> `Stretch.isGreatest_floor`, `Stretch.isLeast_ceil`: `floor` finds the last boundary that is not after a
> millisecond and `ceil` the first that is not before it.
-/

namespace VisualEncoding

open Scalar (CountsExactly)

namespace Calendar

variable {α : Type} [Scalar α] [CountsExactly α]

/-- Milliseconds that count to within some twelve thousand years of 1970. -/
structure IsNear (ms : ℤ) : Prop where
  le : -380000000000000 ≤ ms
  ge : ms ≤ 380000000000000

/-! ## Instants in milliseconds -/

theorem instantOf?_ofInt {n : ℤ} {t : Instant} (hn : |n| ≤ 2 ^ 53) (h : Instant.ofMillis? n = some t) :
    Interval.instantOf? (Scalar.ofInt n : α) = some t := by
  unfold Interval.instantOf?
  rw [CountsExactly.isFinite_ofInt hn, if_pos rfl, CountsExactly.toInt64_ofInt hn, h]

/-- The millisecond before. -/
theorem ofInt_sub_one {n : ℤ} (hn : |n| ≤ 2 ^ 53) (hlo : -2 ^ 53 < n) :
    (Scalar.ofInt n : α) - 1 = Scalar.ofInt (n - 1) := by
  obtain ⟨-, hhi⟩ := abs_le.mp hn
  show (Scalar.ofInt n : α) - Scalar.ofInt 1 = _
  exact CountsExactly.ofInt_sub hn (by decide) (abs_le.mpr ⟨by omega, by omega⟩)

/-- What a clock shows is a reading of the calendar that counts as many seconds. -/
theorem Instant.clock_spec (t : Instant) :
    t.clock.date.IsDay ∧ t.clock.second < secondsPerDay ∧ t.clock.date.days = t.second / 86400 ∧
      t.clock.toInstant.second = t.second := by
  have hdays := Date.days_ofDays (t.second / 86400)
  refine ⟨Date.isDay_ofDays _, ?_, hdays, ?_⟩
  · show (t.second % (86400 : ℕ)).toNat < 86400
    omega
  · show (Date.ofDays (t.second / 86400)).days * (86400 : ℕ) + ((t.second % (86400 : ℕ)).toNat : ℤ) = t.second
    rw [hdays]
    omega

theorem Instant.inRange_of_second {t : Instant} (hlo : -95000000 * 86400 ≤ t.second)
    (hhi : t.second ≤ 95000000 * 86400) : t.inRange = true := by
  refine Date.inRange_ofDays ?_ ?_
  · show -95000000 ≤ t.second / (86400 : ℕ)
    omega
  · show t.second / (86400 : ℕ) ≤ 95000000
    omega

/-- Near the present every millisecond has a clock reading. -/
theorem exists_clock_of_near (ms : ℤ) (hlo : -380000000001000 ≤ ms) (hhi : ms ≤ 380000000000000) :
    ∃ t, Instant.ofMillis? ms = some t ∧ t.inRange = true ∧ t.clock.IsNear ∧
      t.clock.toInstant.second = ms / 1000 := by
  generalize ht : (⟨ms / 1000, (ms % 1000).toNat * nanosPerMilli⟩ : Instant) = t
  have hsecond : t.second = ms / 1000 := ht ▸ rfl
  have hrange := Instant.inRange_of_second (t := t) (by omega) (by omega)
  obtain ⟨hday, hless, hdays, htotal⟩ := t.clock_spec
  refine ⟨t, ?_, hrange, ⟨hday, hless, by omega, by omega⟩, htotal.trans hsecond⟩
  unfold Instant.ofMillis?
  dsimp only
  rw [ht]
  exact if_pos hrange

namespace ClockReading.IsInner

variable {c : ClockReading}

theorem second_bounds (h : c.IsInner) :
    -94000000 * 86400 ≤ c.toInstant.second ∧ c.toInstant.second < 94000001 * 86400 := by
  have hlo := h.le_days
  have hhi := h.days_le
  have hsecond : c.second < 86400 := h.second_lt
  rw [second_toInstant]
  omega

/-- A reading is still in the calendar some offset away. -/
theorem inRange_shift (h : c.IsInner) {offset : ℤ} (hlo : -86400 ≤ offset) (hhi : offset ≤ 86400) :
    (c.toInstant.shift (-offset)).inRange = true := by
  obtain ⟨hbefore, hafter⟩ := h.second_bounds
  refine Date.inRange_ofDays ?_ ?_
  · show -95000000 ≤ (c.toInstant.second + -offset) / (86400 : ℕ)
    omega
  · show (c.toInstant.second + -offset) / (86400 : ℕ) ≤ 95000000
    omega

end ClockReading.IsInner

/-! ## Clocks of a zone -/

/-- A clock reading is understood by an offset of no more than a day. -/
structure Zone.Means (zone : Zone) (reading offset : ℤ) : Prop where
  offsetOfReading? : zone.offsetOfReading? reading = some offset
  le : -86400 ≤ offset
  ge : offset ≤ 86400

/-- A clock reading occurs: at the instant that it means it is what clocks show. -/
structure Zone.Occurs (zone : Zone) (reading offset : ℤ) : Prop extends zone.Means reading offset where
  offsetAt : zone.offsetAt (reading - offset) = offset

/-- At the prime meridian every reading occurs. -/
theorem Zone.occurs_utc (reading : ℤ) : Zone.utc.Occurs reading 0 := ⟨⟨rfl, by decide, by decide⟩, rfl⟩

namespace Interval

variable {move : ClockReading → Except IntervalFault (Option ClockReading)} {c moved boundary later next : ClockReading}
  {t : Instant} {i : Interval} {zone : Zone} {offset offset' offset'' : ℤ}

omit [CountsExactly α] in
/-- A reading that a clock is moved to means an instant by its offset. -/
theorem moveOnClock_of_offset {x : α} (hinstant : instantOf? x = some t)
    (hrange : (t.shift (zone.offsetAt t.second)).inRange = true)
    (hmove : move (t.shift (zone.offsetAt t.second)).clock = .ok (some moved)) (hmoved : moved.IsInner)
    (hmeans : zone.Means moved.toInstant.second offset) :
    moveOnClock move zone x = .ok (Scalar.ofInt ((moved.toInstant.second - offset) * 1000)) := by
  have hclock : t.clockIn? zone = some (t.shift (zone.offsetAt t.second)).clock := if_pos hrange
  have hback : moved.instantIn? zone = some (moved.toInstant.shift (-offset)) := by
    unfold ClockReading.instantIn?
    rw [hmeans.offsetOfReading?]
    exact if_pos (hmoved.inRange_shift hmeans.le hmeans.ge)
  have hmillis : (moved.toInstant.shift (-offset)).millis = (moved.toInstant.second - offset) * 1000 := by
    have hnano : moved.nano = 0 := hmoved.nano_eq
    show (moved.toInstant.second + -offset) * 1000 + (moved.nano / nanosPerMilli : ℕ) = _
    rw [hnano, Nat.zero_div]
    omega
  unfold moveOnClock orFault
  simp only [hinstant, hclock, hmove, bind, Except.bind, Option.bind_some, hback, hmillis]
  rfl

/-- Moving the clock at an instant that a reading means moves that reading. -/
theorem moveOnClock_of_occurs (hc : c.IsInner) (hoccurs : zone.Occurs c.toInstant.second offset)
    (hmove : move c = .ok (some moved)) (hmoved : moved.IsInner) (hmeans : zone.Means moved.toInstant.second offset') :
    moveOnClock move zone (Scalar.ofInt ((c.toInstant.second - offset) * 1000) : α)
      = .ok (Scalar.ofInt ((moved.toInstant.second - offset') * 1000)) := by
  have hle := hoccurs.le
  have hge := hoccurs.ge
  obtain ⟨hbefore, hafter⟩ := hc.second_bounds
  -- clocks show the reading at the instant that it means
  have hshift : ({ second := c.toInstant.second - offset, nano := 0 } : Instant).shift
      (zone.offsetAt (c.toInstant.second - offset)) = c.toInstant := by
    rw [hoccurs.offsetAt]
    refine congr (congrArg Instant.mk ?_) hc.nano_eq.symm
    exact Int.sub_add_cancel _ _
  have hinstant : instantOf? (Scalar.ofInt ((c.toInstant.second - offset) * 1000) : α)
      = some { second := c.toInstant.second - offset, nano := 0 } := by
    refine instantOf?_ofInt (abs_le.mpr ⟨by omega, by omega⟩) ?_
    have hrange := hc.inRange_shift hle hge
    unfold Instant.shift at hrange
    rw [show c.toInstant.nano = 0 from hc.nano_eq] at hrange
    unfold Instant.ofMillis?
    rw [Int.mul_ediv_cancel _ (by decide), Int.mul_emod_left]
    exact if_pos hrange
  refine moveOnClock_of_offset hinstant ?_ ?_ hmoved hmeans
  · rw [hshift]
    exact hc.inRange_toInstant
  · rw [hshift, ClockReading.clock_toInstant hc.isDay hc.second_lt]
    exact hmove

/-- From a millisecond whose reading lies in a tile the boundary is the one that starts the tile. -/
theorem Tile.floor_eq (h : i.Tile boundary later next) (hunit : i.unit ≠ .millisecond) (ms : ℤ)
    (hshown : -86400 ≤ zone.offsetAt (ms / 1000) ∧ zone.offsetAt (ms / 1000) ≤ 86400)
    (hle : boundary.toInstant.second ≤ ms / 1000 + zone.offsetAt (ms / 1000))
    (hlt : ms / 1000 + zone.offsetAt (ms / 1000) < next.toInstant.second)
    (hmeans : zone.Means boundary.toInstant.second offset) :
    i.floor zone (Scalar.ofInt ms : α) = .ok (Scalar.ofInt ((boundary.toInstant.second - offset) * 1000)) := by
  obtain ⟨hbefore, -⟩ := h.isInner.second_bounds
  obtain ⟨-, hafter⟩ := h.isInner_next.second_bounds
  generalize ht : (⟨ms / 1000, (ms % 1000).toNat * nanosPerMilli⟩ : Instant) = t
  have hsecond : t.second = ms / 1000 := ht ▸ rfl
  have hinstant : instantOf? (Scalar.ofInt ms : α) = some t := by
    refine instantOf?_ofInt (abs_le.mpr ⟨by omega, by omega⟩) ?_
    unfold Instant.ofMillis?
    dsimp only
    rw [ht]
    exact if_pos (Instant.inRange_of_second (by omega) (by omega))
  rw [← hsecond] at hshown hle hlt
  obtain ⟨hday, hless, -, htotal⟩ := (t.shift (zone.offsetAt t.second)).clock_spec
  have hshift : (t.shift (zone.offsetAt t.second)).second = t.second + zone.offsetAt t.second := rfl
  rw [floor_of_not_millisecond hunit]
  exact moveOnClock_of_offset hinstant (Instant.inRange_of_second (by omega) (by omega))
    (h.startOf _ hday hless (by omega) (by omega)) h.isInner hmeans

/-- From a boundary that occurs the next one is the one that ends its tile, if the reading one step later occurs. -/
theorem Tile.next_eq (h : i.Tile boundary later next) (hunit : i.unit ≠ .millisecond)
    (hoccurs : zone.Occurs boundary.toInstant.second offset) (hoccurs' : zone.Occurs later.toInstant.second offset')
    (hmeans : zone.Means next.toInstant.second offset'') :
    i.next zone (Scalar.ofInt ((boundary.toInstant.second - offset) * 1000) : α)
      = .ok (Scalar.ofInt ((next.toInstant.second - offset'') * 1000)) := by
  have hadvance : i.advance zone (Scalar.ofInt ((boundary.toInstant.second - offset) * 1000) : α)
      = .ok (Scalar.ofInt ((later.toInstant.second - offset') * 1000)) := by
    rw [advance_of_not_millisecond hunit]
    exact moveOnClock_of_occurs h.isInner hoccurs h.oneStepAfter h.isInner_later hoccurs'.toMeans
  unfold Interval.next
  rw [hadvance]
  show i.floor zone _ = _
  rw [floor_of_not_millisecond hunit]
  exact moveOnClock_of_occurs h.isInner_later hoccurs' h.startOf_later h.isInner_next hmeans

/-! ## Stretches -/

variable (α) in
/-- The milliseconds from a boundary to the next. -/
structure Stretch (i : Interval) (before after : ℤ) : Prop where
  lt : before < after
  before_bound : -2 ^ 53 ≤ before
  after_bound : after ≤ 2 ^ 53
  floor : ∀ ms : ℤ, before ≤ ms → ms < after → i.floor Zone.utc (Scalar.ofInt ms : α) = .ok (Scalar.ofInt before)
  next : i.next Zone.utc (Scalar.ofInt before : α) = .ok (Scalar.ofInt after)
  floor_after : i.floor Zone.utc (Scalar.ofInt after : α) = .ok (Scalar.ofInt after)

/-- At the prime meridian the readings of a tile make up a stretch. -/
theorem Tile.stretch (h : i.Tile boundary later next) (hunit : i.unit ≠ .millisecond)
    (hlt : boundary.toInstant.second < next.toInstant.second) :
    i.Stretch α (boundary.toInstant.second * 1000) (next.toInstant.second * 1000) where
  lt := by omega
  before_bound := by
    have := h.isInner.second_bounds
    omega
  after_bound := by
    have := h.isInner_next.second_bounds
    omega
  floor ms hle hbefore := by
    have hfloor : i.floor Zone.utc (Scalar.ofInt ms : α) = .ok (Scalar.ofInt ((boundary.toInstant.second - 0) * 1000)) :=
      h.floor_eq hunit ms ⟨by show -86400 ≤ (0 : ℤ); decide, by show (0 : ℤ) ≤ 86400; decide⟩
        (by show _ ≤ ms / 1000 + 0; omega) (by show ms / 1000 + 0 < _; omega) (Zone.occurs_utc _).toMeans
    rwa [Int.sub_zero] at hfloor
  next := by
    have hnext : i.next Zone.utc (Scalar.ofInt ((boundary.toInstant.second - 0) * 1000) : α)
        = .ok (Scalar.ofInt ((next.toInstant.second - 0) * 1000)) :=
      h.next_eq hunit (Zone.occurs_utc _) (Zone.occurs_utc _) (Zone.occurs_utc _).toMeans
    rwa [Int.sub_zero, Int.sub_zero] at hnext
  floor_after := by
    have hfloor : moveOnClock i.startOf Zone.utc (Scalar.ofInt ((next.toInstant.second - 0) * 1000) : α)
        = .ok (Scalar.ofInt ((next.toInstant.second - 0) * 1000)) :=
      moveOnClock_of_occurs h.isInner_next (Zone.occurs_utc _) h.startOf_next h.isInner_next (Zone.occurs_utc _).toMeans
    rw [Int.sub_zero] at hfloor
    rw [floor_of_not_millisecond hunit]
    exact hfloor

/-- Without a calendar boundaries are multiples. -/
theorem floor_millis (hunit : i.unit = .millisecond) {ms : ℤ} (hms : |ms| + i.step + 1 < 2 ^ 53) :
    i.floor Zone.utc (Scalar.ofInt ms : α) = .ok (Scalar.ofInt (ms / i.step * i.step)) := by
  rw [floor_of_millisecond hunit, CountsExactly.floor_div_mul (by exact_mod_cast i.step_pos) hms]

theorem stretch_of_millisecond (hunit : i.unit = .millisecond) {ms : ℤ} (hms : |ms| + 3 * i.step + 1 < 2 ^ 53) :
    i.Stretch α (ms / i.step * i.step) (ms / i.step * i.step + i.step) := by
  have hpos : (0 : ℤ) < i.step := by exact_mod_cast i.step_pos
  have hlow : ms / i.step * i.step ≤ ms := Int.ediv_mul_le ms hpos.ne'
  have hhigh : ms < ms / i.step * i.step + i.step := Int.lt_ediv_add_one_mul_self ms hpos |>.trans_eq (by ring)
  have hlo := neg_abs_le ms
  have hhi := le_abs_self ms
  have hafter : (ms / i.step * i.step + i.step) / i.step * i.step = ms / i.step * i.step + i.step := by
    rw [Int.add_ediv_of_dvd_right (Int.dvd_refl _), Int.mul_ediv_cancel _ hpos.ne', Int.ediv_self hpos.ne', Int.add_mul,
      Int.one_mul]
  have hfloor_after : i.floor Zone.utc (Scalar.ofInt (ms / i.step * i.step + i.step) : α)
      = .ok (Scalar.ofInt (ms / i.step * i.step + i.step)) := by
    have habs : |ms / i.step * i.step + i.step| ≤ |ms| + i.step := abs_le.mpr ⟨by omega, by omega⟩
    rw [floor_millis hunit (by omega), hafter]
  refine ⟨by omega, by omega, by omega, fun ms' hle hlt => ?_, ?_, hfloor_after⟩
  · have habs : |ms'| ≤ |ms| + i.step := abs_le.mpr ⟨by omega, by omega⟩
    rw [floor_millis hunit (by omega), (Int.ediv_eq_iff_of_pos hpos).mpr ⟨hle, hlt⟩]
  · unfold next
    rw [advance_of_millisecond hunit, CountsExactly.ofInt_add (abs_le.mpr ⟨by omega, by omega⟩)
      (abs_le.mpr ⟨by omega, by omega⟩) (abs_le.mpr ⟨by omega, by omega⟩)]
    exact hfloor_after

variable (α) in
/-- Near the present, and in the second before that, every millisecond has its stretch. -/
def HasStretches (i : Interval) : Prop :=
  ∀ ms : ℤ, -380000000001000 ≤ ms → ms ≤ 380000000000000 → ∃ before after, i.Stretch α before after ∧ before ≤ ms ∧
    ms < after

theorem hasStretches_of_millisecond (hunit : i.unit = .millisecond) (hstep : i.step ≤ 2500000000000000) :
    i.HasStretches α := by
  intro ms hlo hhi
  have hpos : (0 : ℤ) < i.step := by exact_mod_cast i.step_pos
  have habs : |ms| ≤ 380000000001000 := abs_le.mpr ⟨by omega, by omega⟩
  exact ⟨_, _, stretch_of_millisecond hunit (by omega), (Int.ediv_eq_iff_of_pos hpos).mp rfl⟩

theorem hasStretches_of_hasTile (hunit : i.unit ≠ .millisecond) (h : ∀ c : ClockReading, c.IsNear → i.HasTile c) :
    i.HasStretches α := by
  intro ms hlo hhi
  obtain ⟨t, -, -, hnear, hsecond⟩ := exists_clock_of_near ms hlo hhi
  obtain ⟨boundary, later, next, htile, hle, hlt⟩ := h t.clock hnear
  exact ⟨_, _, htile.stretch hunit (by omega), by omega, by omega⟩

/-! ## Boundaries -/

variable (α) in
/-- A boundary is left as it is. -/
def IsBoundary (i : Interval) (ms : ℤ) : Prop := i.floor Zone.utc (Scalar.ofInt ms : α) = .ok (Scalar.ofInt ms)

namespace Stretch

variable {before after ms : ℤ}

omit [CountsExactly α] in
theorem isBoundary_before (h : i.Stretch α before after) : i.IsBoundary α before := h.floor before le_rfl h.lt

/-- No boundary lies inside. -/
theorem le_before (h : i.Stretch α before after) (hboundary : i.IsBoundary α ms) (hlt : ms < after) : ms ≤ before := by
  by_contra hnot
  have hbefore := h.before_bound
  have hafter := h.after_bound
  -- inside the stretch it would be moved to where that starts
  have hfloor := h.floor ms (by omega) hlt
  rw [hboundary] at hfloor
  have hsame : Scalar.toInt64 (Scalar.ofInt ms : α) = Scalar.toInt64 (Scalar.ofInt before : α) :=
    congrArg Scalar.toInt64 (Except.ok.inj hfloor)
  rw [CountsExactly.toInt64_ofInt (abs_le.mpr ⟨by omega, by omega⟩),
    CountsExactly.toInt64_ofInt (abs_le.mpr ⟨by omega, by omega⟩)] at hsame
  omega

theorem after_le (h : i.Stretch α before after) (hboundary : i.IsBoundary α ms) (hlt : before < ms) : after ≤ ms :=
  Int.not_lt.mp fun hnot => absurd (h.le_before hboundary hnot) (Int.not_le.mpr hlt)

/-- The last boundary that is not after a millisecond is where its stretch starts. -/
theorem isGreatest_floor (h : i.Stretch α before after) (hle : before ≤ ms) (hlt : ms < after) :
    i.floor Zone.utc (Scalar.ofInt ms : α) = .ok (Scalar.ofInt before) ∧
      IsGreatest {b | i.IsBoundary α b ∧ b ≤ ms} before :=
  ⟨h.floor ms hle hlt, ⟨h.isBoundary_before, hle⟩, fun _ hb => h.le_before hb.1 (hb.2.trans_lt hlt)⟩

/-- The first boundary that is not before a millisecond is where the stretch of the millisecond before ends. -/
theorem isLeast_ceil (h : i.Stretch α before after) (hlt : before < ms) (hle : ms ≤ after) :
    i.ceil Zone.utc (Scalar.ofInt ms : α) = .ok (Scalar.ofInt after) ∧
      IsLeast {b | i.IsBoundary α b ∧ ms ≤ b} after := by
  have hbefore := h.before_bound
  have hafter := h.after_bound
  refine ⟨?_, ⟨h.floor_after, hle⟩, fun _ hb => h.after_le hb.1 (hlt.trans_le hb.2)⟩
  unfold Interval.ceil
  rw [ofInt_sub_one (abs_le.mpr ⟨by omega, by omega⟩) (by omega), h.floor (ms - 1) (by omega) (by omega)]
  exact h.next

end Stretch

end Interval

end Calendar

end VisualEncoding
