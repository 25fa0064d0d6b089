import VisualEncoding.Proofs.Calendar.EasternClock
import VisualEncoding.Proofs.Calendar.Spans
import VisualEncoding.Proofs.Outcome
import VisualEncoding.Scalar.Double

/-!
# Round ends of local spans

On the eastern clock the boundaries around an instant are those around what the clock shows, as they are understood
(`Interval.LocalStretch`). The one after it is always understood as a later instant. The one before it is not always
understood as an earlier one: in the hour before the clocks are put back, a boundary within that hour means the one of
the hour after it.

> `niceSpan_eastern`: the upper end of a span is never lowered, and its lower end is raised exactly if it lies in the
> hour before the clocks are put back and the interval splits hours.

That is so in doubles as in exact arithmetic (`exists_niceSpan_eastern`), with the interval that a span is cut by in
them. Then the lower end can even come after the upper one (`niceSpan_eastern_turns`).
-/

namespace VisualEncoding

open Extended (finite)
open Scalar (CountsExactly)

namespace Calendar

/-- The hour before the clocks are put back, in milliseconds. -/
def Zone.IsBeforeFallBack (ms : ℤ) : Prop :=
  ∃ year, (fallBack year - easternDaylight - 3600) * 1000 ≤ ms ∧ ms < (fallBack year - easternDaylight) * 1000

theorem Zone.isBeforeFallBack_iff {ms : ℤ} :
    IsBeforeFallBack ms ↔ ∃ year, (fallBack year + 10800) * 1000 ≤ ms ∧ ms < (fallBack year + 14400) * 1000 := by
  unfold IsBeforeFallBack easternDaylight
  exact exists_congr fun year => by omega

/-- Midnight and every third hour are not skipped, and do not occur twice. -/
theorem Zone.not_between_of_three_hours {reading : ℤ} (h : reading % 10800 = 0) (year : ℤ) :
    (reading < springForward year ∨ springForward year + 3600 ≤ reading) ∧
      ¬ (fallBack year - 3600 ≤ reading ∧ reading < fallBack year) := by
  unfold springForward fallBack secondsPerDay
  omega

namespace Interval

variable {α : Type} [Scalar α] {i : Interval} {length : ℕ} {second before after offset offset' ms : ℤ}

/-! ## Boundaries around what the clock shows -/

variable (α) in
/-- The boundaries around what the eastern clock shows at a second, as the clock understands them. -/
structure LocalStretch (i : Interval) (second before after offset offset' : ℤ) : Prop where
  le : before ≤ second + Zone.eastern.offsetAt second
  lt : second + Zone.eastern.offsetAt second < after
  means : Zone.eastern.Means before offset
  means_after : Zone.eastern.Means after offset'
  floor : ∀ ms : ℤ, ms / 1000 = second →
    i.floor Zone.eastern (Scalar.ofInt ms : α) = .ok (Scalar.ofInt ((before - offset) * 1000))
  next : i.next Zone.eastern (Scalar.ofInt ((before - offset) * 1000) : α)
    = .ok (Scalar.ofInt ((after - offset') * 1000))

namespace LocalStretch

/-- The boundary that is found for an upper end is not before it. -/
theorem ceil [CountsExactly α] (h : i.LocalStretch α second before after offset offset')
    (hms : (ms - 1) / 1000 = second) (hsmall : |ms| < 2 ^ 53) :
    i.ceil Zone.eastern (Scalar.ofInt ms : α) = .ok (Scalar.ofInt ((after - offset') * 1000)) ∧
      ms ≤ (after - offset') * 1000 := by
  have hlater := Zone.lt_sub_of_lt h.means_after h.lt
  refine ⟨?_, by omega⟩
  unfold Interval.ceil
  rw [ofInt_sub_one hsmall.le (abs_lt.mp hsmall).1, h.floor _ hms]
  exact h.next

/-- The boundary that is found for a lower end is not after it, unless it means one of the repeated hour. -/
theorem floor_le (h : i.LocalStretch α second before after offset offset') (hms : ms / 1000 = second)
    (hnot : ∀ year, ¬ (Zone.fallBack year - 3600 ≤ before ∧ before < Zone.fallBack year ∧
      second < Zone.fallBack year + 14400)) : (before - offset) * 1000 ≤ ms := by
  have hle := Zone.sub_le_of_le h.means h.le hnot
  omega

/-- In the hour before the clocks are put back a boundary of the hour is understood as the one an hour later. -/
theorem lt_floor (h : i.LocalStretch α second before after offset offset') (hms : ms / 1000 = second) {year : ℤ}
    (hwithin : (Zone.fallBack year + 10800) * 1000 ≤ ms ∧ ms < (Zone.fallBack year + 14400) * 1000)
    (hbefore : Zone.fallBack year - 3600 ≤ before) (hlength : after ≤ before + 3600) :
    ms < (before - offset) * 1000 ∧ (before - offset) * 1000 ≤ ms + 3600000 := by
  have hchanges := Zone.changes_within year
  have hshown : Zone.eastern.offsetAt second = -14400 :=
    Zone.offsetAt_of_daylight (show Zone.springForward year + 18000 ≤ second by omega) (by omega)
  have hle := h.le
  have hlt := h.lt
  rw [hshown] at hle hlt
  have hstandard := Zone.eq_standard_of_means h.means hbefore (by omega)
  omega

end LocalStretch

/-! ## Boundaries at every third hour -/

/-- An interval all of whose boundaries are at midnight or at a third hour, and the readings one step later too. -/
def KeepsHours (i : Interval) : Prop :=
  ∀ c : ClockReading, c.IsNear → ∃ boundary later next, i.Tile boundary later next ∧
    boundary.toInstant.second ≤ c.toInstant.second ∧ c.toInstant.second < next.toInstant.second ∧
    boundary.toInstant.second % 10800 = 0 ∧ later.toInstant.second % 10800 = 0 ∧ next.toInstant.second % 10800 = 0

theorem keepsHours_of_dividesDay (h : i.DividesDay length) (hdvd : 10800 ∣ length) : i.KeepsHours := by
  intro c hc
  have hrest : c.second % length < length := Nat.mod_lt _ h.pos
  obtain ⟨boundary, next, htile, hboundary, hnext⟩ := h.exists_tile hc
  have hmultiple : (c.second - c.second % length) % 10800 = 0 := by
    rw [← Nat.div_mul_self_eq_mod_sub_self]
    exact Nat.mod_eq_zero_of_dvd (Nat.dvd_mul_left_of_dvd hdvd _)
  have hless := Nat.mod_le c.second length
  have hsecond := ClockReading.second_toInstant c
  exact ⟨boundary, next, next, htile, by omega, by omega, by omega, by omega, by omega⟩

/-- Days, weeks, months and years start at midnight. -/
theorem second_of_startOf {c boundary : ClockReading} (hunit : i.unit ∈ [.day, .week, .month, .year])
    (h : i.startOf c = .ok (some boundary)) : boundary.second = 0 := by
  simp only [List.mem_cons, List.not_mem_nil, or_false] at hunit
  unfold startOf at h
  rcases hunit with hunit | hunit | hunit | hunit
  · rw [hunit] at h
    obtain ⟨_, -, h⟩ := Outcome.bind_eq_ok_iff.mp h
    cases h
    rfl
  · rw [hunit] at h
    obtain ⟨_, -, h⟩ := Outcome.bind_eq_ok_iff.mp h
    cases h
    rfl
  · rw [hunit] at h
    obtain ⟨_, -, h⟩ := Outcome.bind_eq_ok_iff.mp h
    cases h
    rfl
  · rw [hunit] at h
    dsimp only at h
    split at h
    · nomatch h
    · obtain ⟨_, -, rfl⟩ := Option.map_eq_some_iff.mp (Except.ok.inj h)
      rfl

/-- From midnight whole days lead to midnight. -/
theorem second_of_addSeconds? {c later : ClockReading} (hc : c.second = 0) (hnano : c.nano = 0) (days : ℕ)
    (h : orFault (c.addSeconds? (days * 86400 : ℕ)) = .ok later) : later.second = 0 := by
  unfold orFault at h
  split at h
  · next shown hshown =>
    cases h
    obtain ⟨_, -, rfl⟩ := Option.map_eq_some_iff.mp hshown
    dsimp only
    rw [hc, hnano, Nat.zero_div]
    unfold secondsPerDay
    omega
  · nomatch h

/-- From midnight whole days and months lead to midnight. -/
theorem second_of_oneStepAfter {c later : ClockReading} (hunit : i.unit ∈ [.day, .week, .month, .year])
    (hc : c.second = 0) (hnano : c.nano = 0) (h : i.oneStepAfter c = .ok (some later)) : later.second = 0 := by
  simp only [List.mem_cons, List.not_mem_nil, or_false] at hunit
  unfold oneStepAfter at h
  rcases hunit with hunit | hunit | hunit | hunit
  · rw [hunit] at h
    obtain ⟨_, hlater, h⟩ := Outcome.bind_eq_ok_iff.mp h
    cases h
    exact second_of_addSeconds? hc hnano i.step hlater
  · rw [hunit] at h
    obtain ⟨_, hlater, h⟩ := Outcome.bind_eq_ok_iff.mp h
    cases h
    exact second_of_addSeconds? hc hnano (i.step * 7) (by rwa [Nat.mul_assoc])
  · rw [hunit] at h
    obtain ⟨_, -, rfl⟩ := Option.map_eq_some_iff.mp (Except.ok.inj h)
    exact hc
  · rw [hunit] at h
    obtain ⟨_, -, rfl⟩ := Option.map_eq_some_iff.mp (Except.ok.inj h)
    exact hc

theorem keepsHours_of_hasTile (hunit : i.unit ∈ [.day, .week, .month, .year])
    (h : ∀ c : ClockReading, c.IsNear → i.HasTile c) : i.KeepsHours := by
  intro c hc
  obtain ⟨boundary, later, next, htile, hle, hlt⟩ := h c hc
  have hmidnight := second_of_startOf hunit (htile.startOf c hc.isDay hc.second_lt hle hlt)
  have hmidnight' := second_of_oneStepAfter hunit hmidnight htile.isInner.nano_eq htile.oneStepAfter
  have hmidnight'' := second_of_startOf hunit htile.startOf_later
  have hseconds := ClockReading.second_toInstant boundary
  have hseconds' := ClockReading.second_toInstant later
  have hseconds'' := ClockReading.second_toInstant next
  exact ⟨boundary, later, next, htile, hle, hlt, by omega, by omega, by omega⟩

/-- What the eastern clock shows near the present. -/
theorem exists_eastern_clock (second : ℤ) (hlo : -380000100000 ≤ second) (hhi : second ≤ 380000100000) :
    ∃ c : ClockReading, c.IsNear ∧ c.toInstant.second = second + Zone.eastern.offsetAt second := by
  have hbounds := Zone.offsetAt_bounds second
  obtain ⟨hday, hless, hdays, htotal⟩ :=
    (⟨second + Zone.eastern.offsetAt second, 0⟩ : Instant).clock_spec
  dsimp only at hdays htotal
  exact ⟨_, ⟨hday, hless, by omega, by omega⟩, htotal⟩

theorem exists_localStretch_of_keepsHours [CountsExactly α] (h : i.KeepsHours) (hunit : i.unit ≠ .millisecond)
    (hlo : -380000100000 ≤ second) (hhi : second ≤ 380000100000) :
    ∃ before after offset offset', i.LocalStretch α second before after offset offset' ∧ before % 10800 = 0 := by
  obtain ⟨c, hc, hshown⟩ := exists_eastern_clock second hlo hhi
  obtain ⟨boundary, later, next, htile, hle, hlt, hboundary, hlater, hnext⟩ := h c hc
  have hoccurs : ∀ reading : ℤ, reading % 10800 = 0 → ∃ offset, Zone.eastern.Occurs reading offset := by
    intro reading hreading
    have hkept := fun year => (Zone.not_between_of_three_hours hreading year).1
    obtain ⟨offset, hmeans⟩ := Zone.exists_means reading fun year => (hkept year).imp_left Int.le_of_lt
    exact ⟨offset, Zone.occurs_of_means hmeans fun year => by have := hkept year; omega⟩
  obtain ⟨offset, hoffset⟩ := hoccurs _ hboundary
  obtain ⟨offset', hoffset'⟩ := hoccurs _ hlater
  obtain ⟨offset'', hoffset''⟩ := hoccurs _ hnext
  have hbounds := Zone.offsetAt_bounds second
  rw [hshown] at hle hlt
  refine ⟨_, _, offset, offset'', ⟨hle, hlt, hoffset.toMeans, hoffset''.toMeans, ?_,
    htile.next_eq hunit hoffset hoffset' hoffset''.toMeans⟩, hboundary⟩
  rintro ms rfl
  exact htile.floor_eq hunit ms (by omega) hle hlt hoffset.toMeans

/-! ## Boundaries within hours -/

theorem le_of_lt_add_of_dvd {a b n : ℤ} (h : a < b + n) (ha : n ∣ a) (hb : n ∣ b) : a ≤ b := by
  by_contra hnot
  have := Int.le_of_dvd (show 0 < a - b by omega) (Int.dvd_sub ha hb)
  omega

/-- The tile of what the eastern clock shows, for an interval that divides the hour. -/
theorem exists_eastern_tile (h : i.DividesDay length) (second : ℤ) (hlo : -380000100000 ≤ second)
    (hhi : second ≤ 380000100000) :
    ∃ boundary next, i.Tile boundary next next ∧
      boundary.toInstant.second ≤ second + Zone.eastern.offsetAt second ∧
      second + Zone.eastern.offsetAt second < next.toInstant.second ∧ (length : ℤ) ∣ boundary.toInstant.second ∧
      next.toInstant.second = boundary.toInstant.second + length := by
  obtain ⟨c, hc, hshown⟩ := exists_eastern_clock second hlo hhi
  obtain ⟨boundary, next, htile, hboundary, hnext⟩ := h.exists_tile hc
  have hrest : c.second % length < length := Nat.mod_lt _ h.pos
  have hless := Nat.mod_le c.second length
  refine ⟨boundary, next, htile, by omega, by omega, ?_, hnext⟩
  -- whole parts of a day after midnight
  have hsplit : boundary.toInstant.second = c.date.days * (86400 : ℕ) + (c.second - c.second % length : ℕ) := by
    rw [hboundary, ClockReading.second_toInstant]
    omega
  rw [hsplit]
  refine Int.dvd_add (Dvd.dvd.mul_left (Int.natCast_dvd_natCast.mpr h.dvd) _) (Int.natCast_dvd_natCast.mpr ?_)
  exact Nat.dvd_sub_mod _

/-- The clocks are put forward and back at full hours. -/
theorem dvd_changes (hdvd : length ∣ 3600) (year : ℤ) :
    (length : ℤ) ∣ Zone.springForward year ∧ (length : ℤ) ∣ Zone.fallBack year := by
  have hhour : (length : ℤ) ∣ 3600 := by exact_mod_cast hdvd
  refine ⟨hhour.trans ⟨Zone.sunday year 3 2 * 24 + 2, ?_⟩, hhour.trans ⟨Zone.sunday year 11 1 * 24 + 2, ?_⟩⟩
  · unfold Zone.springForward secondsPerDay
    omega
  · unfold Zone.fallBack secondsPerDay
    omega

/-- Where the clocks are put forward `floor` finds the reading that they are put to, which means the same instant. -/
theorem floor_springForward [CountsExactly α] (h : i.DividesDay length) (hdvd : length ∣ 3600)
    (hunit : i.unit ≠ .millisecond) {year : ℤ} (hlo : -380000090000 ≤ Zone.springForward year)
    (hhi : Zone.springForward year ≤ 380000080000) :
    i.floor Zone.eastern (Scalar.ofInt ((Zone.springForward year + 18000) * 1000) : α)
      = .ok (Scalar.ofInt ((Zone.springForward year + 18000) * 1000)) := by
  have hchanges := Zone.changes_within year
  have hhour : (length : ℤ) ∣ 3600 := by exact_mod_cast hdvd
  have hshown : Zone.eastern.offsetAt (Zone.springForward year + 18000) = -14400 :=
    Zone.offsetAt_of_daylight le_rfl (by omega)
  obtain ⟨boundary, next, htile, hle, hlt, hmultiple, hnext⟩ :=
    exists_eastern_tile h (Zone.springForward year + 18000) (by omega) (by omega)
  -- the clocks show a full hour, so that the tile starts there
  have hsame : boundary.toInstant.second = Zone.springForward year + 3600 := by
    refine le_antisymm (by omega) (le_of_lt_add_of_dvd (n := length) (by omega) ?_ hmultiple)
    exact Int.dvd_add (dvd_changes hdvd year).1 hhour
  obtain ⟨offset, hmeans⟩ := Zone.exists_means boundary.toInstant.second fun year' => by
    have := Zone.not_skipped (Zone.springForward year + 18000) year'
    omega
  have hinstant := Zone.sub_eq_of_springForward hmeans (.inr hsame)
  have hfloor := htile.floor_eq (α := α) hunit ((Zone.springForward year + 18000) * 1000)
    (by rw [Int.mul_ediv_cancel _ (by decide)]; omega) (by rwa [Int.mul_ediv_cancel _ (by decide)])
    (by rwa [Int.mul_ediv_cancel _ (by decide)]) hmeans
  rwa [hinstant] at hfloor

theorem exists_localStretch_of_dividesDay [CountsExactly α] (h : i.DividesDay length) (hdvd : length ∣ 3600)
    (hunit : i.unit ≠ .millisecond) (hlo : -380000001000 ≤ second) (hhi : second ≤ 380000000000) :
    ∃ before after offset offset', i.LocalStretch α second before after offset offset' ∧ (length : ℤ) ∣ before ∧
      after = before + length := by
  have hhour : (length : ℤ) ∣ 3600 := by exact_mod_cast hdvd
  have hlength : (length : ℤ) ≤ 3600 := Int.le_of_dvd (by decide) hhour
  have hbounds := Zone.offsetAt_bounds second
  obtain ⟨boundary, next, htile, hle, hlt, hmultiple, hnext⟩ :=
    exists_eastern_tile h second (by omega) (by omega)
  have hspring := fun year => (dvd_changes hdvd year).1
  -- the skipped hour starts and ends with boundaries, so that the tile does not reach into it
  have hboundary : ∀ year, boundary.toInstant.second < Zone.springForward year ∨
      Zone.springForward year + 3600 ≤ boundary.toInstant.second := by
    intro year
    refine (Zone.not_skipped second year).imp (fun hbefore => by omega) fun hafter => ?_
    exact le_of_lt_add_of_dvd (n := length) (by omega) (Int.dvd_add (hspring year) hhour) hmultiple
  have hafter : ∀ year, next.toInstant.second ≤ Zone.springForward year ∨
      Zone.springForward year + 3600 ≤ next.toInstant.second := by
    intro year
    by_contra hbetween
    have hle := le_of_lt_add_of_dvd (n := length) (b := boundary.toInstant.second) (by omega) (hspring year) hmultiple
    have := hboundary year
    omega
  obtain ⟨offset, hmeans⟩ := Zone.exists_means _ fun year => (hboundary year).imp_left Int.le_of_lt
  obtain ⟨offset', hmeans'⟩ := Zone.exists_means _ hafter
  have hoccurs := Zone.occurs_of_means hmeans fun year => by have := hboundary year; omega
  refine ⟨_, _, offset, offset', ⟨hle, hlt, hmeans, hmeans', ?_, ?_⟩, hmultiple, hnext⟩
  · rintro ms rfl
    exact htile.floor_eq hunit ms (by omega) hle hlt hmeans
  · by_cases hchange : ∃ year, next.toInstant.second = Zone.springForward year
    · -- one step on is the reading at which the clocks are put forward
      obtain ⟨year, hyear⟩ := hchange
      have hadvance : i.advance Zone.eastern (Scalar.ofInt ((boundary.toInstant.second - offset) * 1000) : α)
          = .ok (Scalar.ofInt ((next.toInstant.second - offset') * 1000)) := by
        rw [advance_of_not_millisecond hunit]
        exact moveOnClock_of_occurs htile.isInner hoccurs htile.oneStepAfter htile.isInner_next hmeans'
      rw [Zone.sub_eq_of_springForward hmeans' (.inl hyear)] at hadvance ⊢
      unfold Interval.next
      rw [hadvance]
      exact floor_springForward h hdvd hunit (by omega) (by omega)
    · exact htile.next_eq hunit hoccurs (Zone.occurs_of_means hmeans' fun year hyear => hchange ⟨year, hyear⟩) hmeans'

/-! ## The two kinds of intervals -/

/-- An interval either has its boundaries within the hour and at every hour, or at midnight and at third hours. -/
def IsLocallyTiled (i : Interval) : Prop :=
  i.SplitsHours ∧ (∃ length, length ∣ 3600 ∧ i.DividesDay length) ∨ ¬ i.SplitsHours ∧ i.KeepsHours

theorem not_splitsHours_of_days (hunit : i.unit ∈ [.day, .week, .month, .year]) : ¬ i.SplitsHours := by
  have hdisjoint : ∀ unit ∈ [TimeUnit.day, .week, .month, .year], unit ∉ [TimeUnit.second, .minute, .hour] := by decide
  exact fun hsplits => hdisjoint i.unit hunit hsplits.unit_mem

theorem isLocallyTiled_of_hasTile (hunit : i.unit ∈ [.day, .week, .month, .year])
    (h : ∀ c : ClockReading, c.IsNear → i.HasTile c) : i.IsLocallyTiled :=
  .inr ⟨not_splitsHours_of_days hunit, keepsHours_of_hasTile hunit h⟩

theorem isLocallyTiled_of_mem_usual {u : TimeUnit × ℕ × ℕ} (hu : u ∈ usual) : (every u.1 u.2.1).IsLocallyTiled := by
  rcases usual_cases hu with ⟨length, hdivides, ⟨hsplits, hdvd⟩ | ⟨hnot, hdvd⟩⟩ | ⟨hunit, htile⟩
  · exact .inl ⟨hsplits, length, hdvd, hdivides⟩
  · exact .inr ⟨hnot, keepsHours_of_dividesDay hdivides hdvd⟩
  · exact isLocallyTiled_of_hasTile hunit htile

/-- The intervals that spans near the present are cut by, on the eastern clock. -/
theorem isLocallyTiled_forSpan [CutsModerately α] {u v : α} {count : ℕ} (hu : IsNearby u) (hv : IsNearby v)
    (hcount : 1 ≤ count) :
    (forSpan u v count).unit = .millisecond ∨
      (forSpan u v count).unit ≠ .millisecond ∧ (forSpan u v count).IsLocallyTiled := by
  rcases forSpan_cases hu hv hcount with ⟨hunit, -⟩ | ⟨w, hw, heq⟩ | ⟨k, hpos, hle, heq⟩
  · exact .inl hunit
  · have hunit : ∀ w ∈ usual, w.1 ≠ .millisecond := by decide
    rw [heq]
    exact .inr ⟨hunit w hw, isLocallyTiled_of_mem_usual hw⟩
  · rw [heq]
    exact .inr ⟨nofun, isLocallyTiled_of_hasTile (List.mem_of_getElem? (i := 3) rfl) fun _ hc =>
      (countsMonths_years hpos hle).hasTile hc⟩

/-- The boundary that is found for a lower end. -/
theorem IsLocallyTiled.floor [CountsExactly α] (h : i.IsLocallyTiled) (hunit : i.unit ≠ .millisecond)
    (hms : IsNear ms) :
    ∃ lo : ℤ, i.floor Zone.eastern (Scalar.ofInt ms : α) = .ok (Scalar.ofInt lo) ∧
      (¬ (Zone.IsBeforeFallBack ms ∧ i.SplitsHours) → lo ≤ ms) ∧
      (Zone.IsBeforeFallBack ms ∧ i.SplitsHours → ms < lo ∧ lo ≤ ms + 3600000) := by
  have hle := hms.le
  have hge := hms.ge
  rcases h with ⟨hsplits, length, hdvd, hdivides⟩ | ⟨hsplits, hkeeps⟩
  · obtain ⟨before, after, offset, offset', hstretch, hmultiple, hafter⟩ :=
      exists_localStretch_of_dividesDay (α := α) hdivides hdvd hunit (show _ ≤ ms / 1000 by omega) (by omega)
    refine ⟨_, hstretch.floor ms rfl, fun hnot => hstretch.floor_le rfl fun year hyear => ?_, ?_⟩
    · have hbounds := Zone.offsetAt_bounds (ms / 1000)
      have hbefore := hstretch.le
      exact hnot ⟨Zone.isBeforeFallBack_iff.mpr ⟨year, by omega, by omega⟩, hsplits⟩
    · rintro ⟨hfall, -⟩
      obtain ⟨year, hwithin⟩ := Zone.isBeforeFallBack_iff.mp hfall
      have hhour : (length : ℤ) ∣ 3600 := by exact_mod_cast hdvd
      have hlength : (length : ℤ) ≤ 3600 := Int.le_of_dvd (by decide) hhour
      have hchanges := Zone.changes_within year
      have hshown : Zone.eastern.offsetAt (ms / 1000) = -14400 :=
        Zone.offsetAt_of_daylight (show Zone.springForward year + 18000 ≤ ms / 1000 by omega) (by omega)
      have hlt := hstretch.lt
      -- the hour starts with a boundary
      have hbefore : Zone.fallBack year - 3600 ≤ before :=
        le_of_lt_add_of_dvd (n := length) (by omega) (Int.dvd_sub (dvd_changes hdvd year).2 hhour) hmultiple
      exact hstretch.lt_floor rfl hwithin hbefore (by omega)
  · obtain ⟨before, after, offset, offset', hstretch, hthree⟩ :=
      exists_localStretch_of_keepsHours (α := α) hkeeps hunit (show _ ≤ ms / 1000 by omega) (by omega)
    refine ⟨_, hstretch.floor ms rfl, fun _ => hstretch.floor_le rfl fun year hyear => ?_, fun h => absurd h.2 hsplits⟩
    exact (Zone.not_between_of_three_hours hthree year).2 ⟨hyear.1, hyear.2.1⟩

/-- The boundary that is found for an upper end. -/
theorem IsLocallyTiled.ceil [CountsExactly α] (h : i.IsLocallyTiled) (hunit : i.unit ≠ .millisecond)
    (hms : IsNear ms) :
    ∃ hi : ℤ, i.ceil Zone.eastern (Scalar.ofInt ms : α) = .ok (Scalar.ofInt hi) ∧ ms ≤ hi := by
  have hle := hms.le
  have hge := hms.ge
  rcases h with ⟨-, length, hdvd, hdivides⟩ | ⟨-, hkeeps⟩
  · obtain ⟨_, _, _, _, hstretch, -⟩ :=
      exists_localStretch_of_dividesDay (α := α) hdivides hdvd hunit (show _ ≤ (ms - 1) / 1000 by omega) (by omega)
    exact ⟨_, hstretch.ceil rfl (abs_lt.mpr ⟨by omega, by omega⟩)⟩
  · obtain ⟨_, _, _, _, hstretch, -⟩ :=
      exists_localStretch_of_keepsHours (α := α) hkeeps hunit (show _ ≤ (ms - 1) / 1000 by omega) (by omega)
    exact ⟨_, hstretch.ceil rfl (abs_lt.mpr ⟨by omega, by omega⟩)⟩

/-- Milliseconds are counted alike in every zone. -/
theorem floor_of_millisecond_eq_utc (hunit : i.unit = .millisecond) (zone : Zone) (x : α) :
    i.floor zone x = i.floor Zone.utc x := by
  rw [floor_of_millisecond hunit, floor_of_millisecond hunit]

theorem ceil_of_millisecond_eq_utc (hunit : i.unit = .millisecond) (zone : Zone) (x : α) :
    i.ceil zone x = i.ceil Zone.utc x := by
  rw [ceil_of_millisecond hunit, ceil_of_millisecond hunit]

end Interval

/-! ## Local spans -/

section

variable {α : Type} [Scalar α] [CountsExactly α] [Interval.CutsModerately α] {a b : ℤ} {count : ℕ}

theorem niceSpan_eastern_of_lt (hab : a < b) (ha : IsNear a) (hb : IsNear b) (hcount : 1 ≤ count) :
    ∃ lo hi : ℤ,
      niceSpan Zone.eastern (Scalar.ofInt a : α) (Scalar.ofInt b) count = .ok (Scalar.ofInt lo, Scalar.ofInt hi) ∧
      b ≤ hi ∧
      (¬ (Zone.IsBeforeFallBack a ∧ (Interval.forSpan (Scalar.ofInt a : α) (Scalar.ofInt b) count).SplitsHours) →
        lo ≤ a) ∧
      (Zone.IsBeforeFallBack a ∧ (Interval.forSpan (Scalar.ofInt a : α) (Scalar.ofInt b) count).SplitsHours →
        a < lo ∧ lo ≤ a + 3600000) := by
  have hstretches : (Interval.forSpan (Scalar.ofInt a : α) (Scalar.ofInt b) count).HasStretches α :=
    Interval.hasStretches_forSpan ha.nearby hb.nearby hcount
  have hlo := ha.le
  have hhi := hb.ge
  rcases Interval.isLocallyTiled_forSpan (α := α) ha.nearby hb.nearby hcount with hunit | ⟨hunit, htiled⟩
  · obtain ⟨lo, _, hstretch, hle, hbefore⟩ := hstretches a (by omega) (by omega)
    obtain ⟨_, hi, hstretch', hle', hbefore'⟩ := hstretches (b - 1) (by omega) (by omega)
    obtain ⟨hfloor, -⟩ := hstretch.isGreatest_floor hle hbefore
    obtain ⟨hceil, -⟩ := hstretch'.isLeast_ceil (show _ < b by omega) (by omega)
    rw [← Interval.floor_of_millisecond_eq_utc hunit Zone.eastern] at hfloor
    rw [← Interval.ceil_of_millisecond_eq_utc hunit Zone.eastern] at hceil
    refine ⟨lo, hi, niceSpan_of_floor_ceil hab ha.small hb.small hfloor hceil, by omega, fun _ => hle, ?_⟩
    rintro ⟨-, hsplits⟩
    have hmem := hsplits.unit_mem
    rw [hunit] at hmem
    exact absurd hmem (by decide)
  · obtain ⟨lo, hfloor, hbounds⟩ := htiled.floor (α := α) hunit ha
    obtain ⟨hi, hceil, hle⟩ := htiled.ceil (α := α) hunit hb
    exact ⟨lo, hi, niceSpan_of_floor_ceil hab ha.small hb.small hfloor hceil, hle, hbounds⟩

/-- In whichever numbers local spans are counted, nicing widens them but for one hour of the year. -/
theorem exists_niceSpan_eastern (hab : a ≠ b) (ha : IsNear a) (hb : IsNear b) (hcount : 1 ≤ count) :
    ∃ lo hi : ℤ,
      niceSpan Zone.eastern (Scalar.ofInt a : α) (Scalar.ofInt b) count
        = .ok (if a < b then (Scalar.ofInt lo, Scalar.ofInt hi) else (Scalar.ofInt hi, Scalar.ofInt lo)) ∧
      max a b ≤ hi ∧
      (¬ (Zone.IsBeforeFallBack (min a b) ∧
        (Interval.forSpan (Scalar.ofInt (min a b) : α) (Scalar.ofInt (max a b)) count).SplitsHours) → lo ≤ min a b) ∧
      (Zone.IsBeforeFallBack (min a b) ∧
        (Interval.forSpan (Scalar.ofInt (min a b) : α) (Scalar.ofInt (max a b)) count).SplitsHours →
          min a b < lo ∧ lo ≤ min a b + 3600000) := by
  rcases hab.lt_or_gt with hlt | hgt
  · obtain ⟨lo, hi, hnice, hbounds⟩ := niceSpan_eastern_of_lt (α := α) hlt ha hb hcount
    rw [min_eq_left hlt.le, max_eq_right hlt.le]
    refine ⟨lo, hi, ?_, hbounds⟩
    rw [hnice, if_pos hlt]
  · obtain ⟨lo, hi, hnice, hbounds⟩ := niceSpan_eastern_of_lt (α := α) hgt hb ha hcount
    rw [min_eq_right hgt.le, max_eq_left hgt.le]
    refine ⟨lo, hi, ?_, hbounds⟩
    rw [niceSpan_ofInt_swap _ hgt hb.small ha.small, hnice, if_neg hgt.not_gt]
    rfl

end

/-- **Nicing a local span widens it, but for one hour of the year.** Moving the ends of a local span near the present
to round instants succeeds, in either direction, and the upper end is never lowered. The lower end is not raised, so
that the span keeps its direction, unless it lies in the hour before the clocks are put back and the span is cut by an
interval that splits hours. In that hour the boundary before an instant is understood as the one an hour later, and so
the lower end is raised, by an hour at most. -/
theorem niceSpan_eastern {a b : ℤ} {count : ℕ} (hab : a ≠ b) (ha : IsNear a) (hb : IsNear b) (hcount : 1 ≤ count) :
    ∃ lo hi : ℤ,
      niceSpan Zone.eastern (finite a) (finite b) count
        = .ok (if a < b then (finite lo, finite hi) else (finite hi, finite lo)) ∧
      max a b ≤ hi ∧
      (¬ (Zone.IsBeforeFallBack (min a b) ∧
        (Interval.forSpan (finite (min a b : ℤ)) (finite (max a b : ℤ)) count).SplitsHours) → lo ≤ min a b) ∧
      (Zone.IsBeforeFallBack (min a b) ∧
        (Interval.forSpan (finite (min a b : ℤ)) (finite (max a b : ℤ)) count).SplitsHours →
          min a b < lo ∧ lo ≤ min a b + 3600000) :=
  exists_niceSpan_eastern hab ha hb hcount

/-- An hour of the evening before the clocks are put back is widened, given from its end. -/
theorem niceSpan_eastern_evening :
    ∃ lo hi : ℤ, niceSpan Zone.eastern (finite (1636250400000 : ℤ)) (finite (1636246800000 : ℤ)) 10
      = .ok (finite hi, finite lo) ∧ 1636250400000 ≤ hi ∧ lo ≤ 1636246800000 := by
  have hnot : ¬ Zone.IsBeforeFallBack 1636246800000 := by
    intro hfall
    obtain ⟨year, hle, hlt⟩ := Zone.isBeforeFallBack_iff.mp hfall
    have hchanges := Zone.changes_within year
    have hfallBack : Zone.fallBack 2021 = 1636250400 := by decide
    have hstart : Zone.yearStart 2021 = 1609459200 := by decide
    have hend : Zone.yearStart (2021 + 1) = 1640995200 := by decide
    rcases Zone.yearStart_cases year 2021 with rfl | hyears
    · omega
    · omega
  obtain ⟨lo, hi, hnice, hhi, hlo, -⟩ :=
    niceSpan_eastern (a := 1636250400000) (b := 1636246800000) (by decide) ⟨by decide, by decide⟩ ⟨by decide, by decide⟩
      (show 1 ≤ 10 by decide)
  exact ⟨lo, hi, hnice, hhi, hlo fun hexception => hnot hexception.1⟩

/-- On 2021-11-07 clocks show 01:40 at 05:40 and at 06:40, and 01:01 at 06:01: the span from the first to the last
instant is turned around. -/
theorem niceSpan_eastern_turns :
    ∃ lo hi : Float, niceSpan Zone.eastern (1636263600000 : Float) 1636264860000 10 = .ok (lo, hi) ∧
      (1636263600000 : Float) < 1636264860000 ∧ (1636263600000 : Float) < lo ∧ hi < lo :=
  ⟨1636267200000, 1636264860000, rfl, by decide, by decide, by decide⟩

end Calendar

end VisualEncoding
