import VisualEncoding.Proofs.Calendar.Faults
import VisualEncoding.Proofs.Calendar.Spans
import VisualEncoding.Proofs.Outcome

/-!
# Spans at the ends of the calendar

Which interval a span is cut by depends on how numbers are rounded, but whichever it is, `floor` and `ceil` fail in
known places. So round ends have a condition on what the clocks show at the two ends of a span, in doubles too:

> `niceSpan_error_iff_noRoundEnds`: round ends fail exactly if there is no boundary below the lower end, or none above
> the upper one.

The usual intervals keep to the calendar. Between years a number of years may be one that no remainder can be taken of,
which exact arithmetic excludes (`Interval.shortStep_ofYears`) and doubles do for whole milliseconds of the calendar
(`Interval.CutsShort`). So round ends and ticks are found for every span, but for those at the ends of the calendar:

> `niceSpan_error_iff`: round ends fail if the clocks show a reading before the first boundary at the lower end or a
> millisecond before the upper one, or the last boundary there.
> `spanTicks_error`: ticks fail only before the first boundary and where the last one is come to.
> `millis_leave_only_at_ends`: the same of whole milliseconds, in whatever numbers they are counted.
-/

namespace VisualEncoding

open Extended (finite)
open Scalar (CountsExactly)

/-- Whole numbers are read as the nearest that fit. -/
theorem Extended.toInt64_natCast (n : ℕ) :
    Scalar.toInt64 (finite ((n : ℤ) : ℝ)) = min (n : ℤ) 0x7FFFFFFFFFFFFFFF := by
  unfold Scalar.toInt64 Scalar.truncateWithin
  show max _ (min _ (truncate (finite ((n : ℤ) : ℝ)))) = _
  rw [truncate_intCast]
  omega

namespace Calendar

/-! ## Round ends in any numbers -/

section

variable {α : Type} [Scalar α] {zone : Zone} {a b : α} {count : ℕ} {fault : IntervalFault}

/-- Whatever a span is cut by keeps to the calendar, if it is counted on a clock, or it is a number of years without a
remainder. -/
theorem Interval.keepsToCalendar_or_lacksRemainder (a b : α) (count : ℕ) :
    ((forSpan a b count).unit ≠ .millisecond → (forSpan a b count).KeepsToCalendar) ∨
      (forSpan a b count).LacksRemainder := by
  rcases forSpan_kinds a b count with ⟨-, heq⟩ | ⟨w, hw, heq⟩ | ⟨-, heq⟩ <;> rw [heq]
  · exact .inl fun hunit => absurd rfl hunit
  · exact .inl fun _ => keepsToCalendar_of_mem_usual hw
  · by_cases hstep : (ofYears a b count).shortStep = 0
    · exact .inr ⟨rfl, hstep⟩
    · exact .inl fun hunit => keepsToCalendar_of_stepSeconds?_eq_none rfl hunit hstep

/-- Why a span has no round ends: there is no boundary below its lower end or, if there is one, none above its upper
end. A span without length, or without two ends that are numbers, stays. -/
def NoRoundEnds (zone : Zone) (a b : α) (count : ℕ) (fault : IntervalFault) : Prop :=
  let lo := if b < a then b else a
  let hi := if b < a then a else b
  Scalar.isFinite lo = true ∧ Scalar.isFinite hi = true ∧ (lo == hi) = false ∧
    let i := Interval.forSpan lo hi count
    i.NoFloor zone lo fault ∨ (∀ fault, ¬ i.NoFloor zone lo fault) ∧ i.NoCeil zone hi fault

variable [CountsExactly α]

/-- Round ends are looked for from the lower end on. -/
theorem floor_ceil_error_iff (hzone : zone.Lags) (lo hi : α) (f : α → α → α × α) :
    let i := Interval.forSpan lo hi count
    (do let lo ← i.floor zone lo; let hi ← i.ceil zone hi; return f lo hi) = .error fault ↔
      i.NoFloor zone lo fault ∨ (∀ fault, ¬ i.NoFloor zone lo fault) ∧ i.NoCeil zone hi fault := by
  intro i
  have hi' := Interval.keepsToCalendar_or_lacksRemainder lo hi count
  have hfloor : ∀ fault, i.floor zone lo = .error fault ↔ i.NoFloor zone lo fault := fun _ =>
    Interval.floor_error_iff hi' hzone
  have hceil : i.ceil zone hi = .error fault ↔ i.NoCeil zone hi fault := Interval.ceil_error_iff hi' hzone
  rw [Outcome.bind_eq_error_iff, hfloor]
  refine or_congr_right ⟨?_, ?_⟩
  · rintro ⟨lo', hlo, hrest⟩
    rcases Outcome.bind_eq_error_iff.mp hrest with herror | ⟨_, -, hpure⟩
    · exact ⟨fun fault' hno => (nomatch hlo.symm.trans ((hfloor fault').mpr hno)), hceil.mp herror⟩
    · nomatch hpure
  · rintro ⟨hno, herror⟩
    cases hlo : i.floor zone lo with
    | error fault' => exact absurd ((hfloor fault').mp hlo) (hno fault')
    | ok lo' => exact ⟨lo', rfl, Outcome.bind_eq_error_iff.mpr (.inl (hceil.mpr herror))⟩

/-- **When round ends fail.** -/
theorem niceSpan_error_iff_noRoundEnds (hzone : zone.Lags) :
    niceSpan zone a b count = .error fault ↔ NoRoundEnds zone a b count fault := by
  have hguard : ∀ (lo hi : α) (f : α → α → α × α),
      (if (!Scalar.isFinite lo || !Scalar.isFinite hi || lo == hi) = true then Except.ok (a, b)
        else do
          let i := Interval.forSpan lo hi count
          let lo ← i.floor zone lo
          let hi ← i.ceil zone hi
          return f lo hi) = .error fault ↔
        Scalar.isFinite lo = true ∧ Scalar.isFinite hi = true ∧ (lo == hi) = false ∧
          let i := Interval.forSpan lo hi count
          i.NoFloor zone lo fault ∨ (∀ fault, ¬ i.NoFloor zone lo fault) ∧ i.NoCeil zone hi fault := by
    intro lo hi f
    split
    next hstays =>
      refine iff_of_false nofun ?_
      rintro ⟨hlo, hhi, hne, -⟩
      rw [hlo, hhi, hne] at hstays
      nomatch hstays
    next hmoves =>
      simp only [Bool.or_eq_true, Bool.not_eq_true', not_or, Bool.not_eq_false, Bool.not_eq_true] at hmoves
      obtain ⟨⟨hlo, hhi⟩, hne⟩ := hmoves
      refine (floor_ceil_error_iff hzone lo hi f).trans ?_
      exact ⟨fun h => ⟨hlo, hhi, hne, h⟩, fun h => h.2.2.2⟩
  unfold niceSpan NoRoundEnds
  by_cases hreversed : b < a
  · simp only [hreversed, decide_true, if_true]
    exact hguard b a fun lo hi => (hi, lo)
  · simp only [hreversed, decide_false, if_false, Bool.false_eq_true]
    exact hguard a b fun lo hi => (lo, hi)

theorem not_noRoundEnds_of_ok (hzone : zone.Lags) {ends : α × α} (hok : niceSpan zone a b count = .ok ends) :
    ¬ NoRoundEnds zone a b count fault := fun hnone =>
  nomatch hok.symm.trans ((niceSpan_error_iff_noRoundEnds hzone).mpr hnone)

/-- Where every remainder can be taken, round ends fail at the ends of the calendar only. -/
theorem noFloor_or_noCeil_iff {i : Interval} (hi : i.unit ≠ .millisecond → i.KeepsToCalendar) (hzone : zone.Lags)
    {u v : α} :
    (i.NoFloor zone u fault ∨ (∀ fault, ¬ i.NoFloor zone u fault) ∧ i.NoCeil zone v fault) ↔
      fault = .outsideCalendar ∧
        (i.IsBeforeFirst zone u ∨ i.IsBeforeFirst zone (v - 1) ∨ i.IsFromLast zone (v - 1)) := by
  have hnone : ∀ x : α, ¬ i.NoFloor zone x .noRemainder := fun _ => Interval.not_noFloor_noRemainder hi hzone
  cases fault with
  | noRemainder =>
    refine iff_of_false ?_ nofun
    rintro (hno | ⟨-, hno | ⟨hfault, -⟩⟩)
    · exact hnone u hno
    · exact hnone _ hno
    · nomatch hfault
  | outsideCalendar =>
    constructor
    · rintro (hbefore | ⟨-, hbefore | ⟨-, hlast⟩⟩)
      · exact ⟨rfl, .inl hbefore⟩
      · exact ⟨rfl, .inr (.inl hbefore)⟩
      · exact ⟨rfl, .inr (.inr hlast)⟩
    · rintro ⟨-, hedge⟩
      by_cases hbefore : i.IsBeforeFirst zone u
      · exact .inl hbefore
      · refine .inr ⟨fun fault => ?_, (hedge.resolve_left hbefore).imp_right fun hlast => ⟨rfl, hlast⟩⟩
        cases fault with
        | outsideCalendar => exact hbefore
        | noRemainder => exact hnone u

omit [CountsExactly α] in
/-- Round ends of two ends in order. -/
theorem noRoundEnds_of_lt (ha : Scalar.isFinite a = true) (hb : Scalar.isFinite b = true) (hsorted : ¬ b < a)
    (hne : (a == b) = false) :
    let i := Interval.forSpan a b count
    NoRoundEnds zone a b count fault ↔
      i.NoFloor zone a fault ∨ (∀ fault, ¬ i.NoFloor zone a fault) ∧ i.NoCeil zone b fault := by
  unfold NoRoundEnds
  rw [if_neg hsorted, if_neg hsorted]
  exact ⟨fun h => h.2.2.2, fun h => ⟨ha, hb, hne, h⟩⟩

omit [CountsExactly α] in
/-- Ticks fail where the boundaries between the ends do. -/
theorem spanTicks_error_range (h : spanTicks zone a b count = .error fault) :
    let lo := if b < a then b else a
    let hi := if b < a then a else b
    1 ≤ count ∧ Scalar.isFinite a = true ∧ Scalar.isFinite b = true ∧
      (Interval.forSpan lo hi count).range zone lo hi = .error fault := by
  unfold spanTicks at h
  split at h
  · nomatch h
  next hsome =>
    simp only [Bool.or_eq_true, decide_eq_true_iff, Bool.not_eq_true', not_or, Bool.not_eq_false] at hsome
    obtain ⟨⟨hcount, ha⟩, hb⟩ := hsome
    refine ⟨by omega, ha, hb, ?_⟩
    split at h
    next hreversed =>
      rw [if_pos hreversed, if_pos hreversed]
      exact Outcome.map_eq_error_iff.mp h
    next hsorted => rwa [if_neg hsorted, if_neg hsorted]

end

namespace Interval

/-! ## Intervals of spans in exact arithmetic -/

/-- The number of years between boundaries is never a multiple of 2^32: it is small, 1, 2 or 5 times a power of ten, or
the greatest number there is. -/
theorem shortStep_ofYears {u v : ℝ} {count : ℕ} (h : u ≠ v) (hcount : 1 ≤ count) :
    (ofYears (finite u) (finite v) count).shortStep ≠ 0 := by
  have hyear : ((yearLength : ℤ) : ℝ) ≠ 0 := by
    unfold yearLength
    norm_num
  obtain ⟨j, hstep, -⟩ := Ticks.abs_step_eq_rung (fun heq => h ((div_left_inj' hyear).mp heq)) hcount
  obtain ⟨n, hround, hn⟩ := Ticks.round_rung j
  have hyears : (ofYears (finite u) (finite v) count).step = max 1 (min n 0x7FFFFFFFFFFFFFFF) := by
    unfold ofYears every
    dsimp only
    rw [Extended.ofInt_eq, Extended.finite_div hyear, Extended.finite_div hyear, hstep, hround, Extended.toInt64_natCast]
    omega
  unfold shortStep
  rw [hyears]
  rcases hn with hsmall | ⟨m, hm, p, rfl⟩
  · omega
  · by_cases hfits : m * 10 ^ p ≤ 0x7FFFFFFFFFFFFFFF
    · have hpos : 1 ≤ m * 10 ^ p := Nat.mul_pos (by simp at hm; omega) (Nat.pow_pos (by decide))
      have hp : p < 19 := by
        by_contra hlarge
        have hpower : 10 ^ 19 ≤ 10 ^ p := Nat.pow_le_pow_right (by decide) (by omega)
        have hle : 10 ^ p ≤ m * 10 ^ p := Nat.le_mul_of_pos_left _ (by simp at hm; omega)
        omega
      have hremainder : ∀ p < 19, ∀ m ∈ [1, 2, 5], m * 10 ^ p % 0x100000000 ≠ 0 := by decide
      rw [Nat.min_eq_left hfits, Nat.max_eq_right hpos]
      exact hremainder p hp m hm
    · omega

/-- Whatever a span is cut by keeps to the calendar, if it is counted on a clock. -/
theorem keepsToCalendar_forSpan (u v : ℝ) {count : ℕ} (hcount : 1 ≤ count)
    (hunit : (forSpan (finite u) (finite v) count).unit ≠ .millisecond) :
    (forSpan (finite u) (finite v) count).KeepsToCalendar := by
  rcases forSpan_kinds (finite u) (finite v) count with ⟨-, heq⟩ | ⟨w, hw, heq⟩ | ⟨hlong, heq⟩
  · exact absurd (congrArg Interval.unit heq) hunit
  · rw [heq]
    exact keepsToCalendar_of_mem_usual hw
  · have huv : u ≠ v := by
      rintro rfl
      rw [partLength_self, Extended.ofInt_eq, Extended.finite_le, Int.cast_nonpos] at hlong
      exact absurd hlong (by decide)
    rw [heq]
    exact keepsToCalendar_of_stepSeconds?_eq_none rfl nofun (shortStep_ofYears huv hcount)

end Interval

variable {zone : Zone} {a b : Extended} {count : ℕ} {fault : IntervalFault} {x y : ℝ}

/-! ## Round ends -/

/-- The numbers are the two ends of a span, in either order. -/
def AreEnds (a b : Extended) (x y : ℝ) : Prop := a = finite x ∧ b = finite y ∨ a = finite y ∧ b = finite x

/-- Round ends of a span lie outside the calendar. -/
def NicesOutside (zone : Zone) (a b : Extended) (count : ℕ) : Prop :=
  ∃ x y, x < y ∧ AreEnds a b x y ∧
    let i := Interval.forSpan (finite x) (finite y) count
    i.IsBeforeFirst zone (finite x) ∨ i.IsBeforeFirst zone (finite (y - 1)) ∨ i.IsFromLast zone (finite (y - 1))

/-- Ticks of a span are looked for outside the calendar. -/
def TicksOutside (zone : Zone) (a b : Extended) (count : ℕ) : Prop :=
  ∃ x y, x ≤ y ∧ AreEnds a b x y ∧
    let i := Interval.forSpan (finite x) (finite y) count
    i.IsBeforeFirst zone (finite (x - 1)) ∨ ∃ last, last ≤ finite y ∧ i.IsFromLast zone last

/-- A span without two different ends that are numbers stays. -/
theorem niceSpan_of_not_areEnds (h : ∀ x y, x < y → ¬ AreEnds a b x y) : niceSpan zone a b count = .ok (a, b) := by
  by_cases ha : Scalar.isFinite a = true
  · by_cases hb : Scalar.isFinite b = true
    · obtain ⟨x, rfl⟩ := Extended.isFinite_iff.mp ha
      obtain ⟨y, rfl⟩ := Extended.isFinite_iff.mp hb
      rcases lt_trichotomy x y with hlt | rfl | hgt
      · exact absurd (.inl ⟨rfl, rfl⟩) (h x y hlt)
      · exact niceSpan_self zone _ count
      · exact absurd (.inr ⟨rfl, rfl⟩) (h y x hgt)
    · unfold niceSpan
      cases decide (b < a) <;> simp [hb]
  · unfold niceSpan
    cases decide (b < a) <;> simp [ha]

theorem niceSpan_finite_swap (h : x < y) :
    niceSpan zone (finite y) (finite x) count = (niceSpan zone (finite x) (finite y) count).map Prod.swap :=
  niceSpan_swap zone (Extended.finite_lt.mpr h) (Extended.lt_asymm (Extended.finite_lt.mpr h)) count

theorem niceSpan_error_of_lt (hzone : zone.Lags) (hcount : 1 ≤ count) (h : x < y) :
    niceSpan zone (finite x) (finite y) count = .error fault ↔ fault = .outsideCalendar ∧
      let i := Interval.forSpan (finite x) (finite y) count
      i.IsBeforeFirst zone (finite x) ∨ i.IsBeforeFirst zone (finite (y - 1)) ∨ i.IsFromLast zone (finite (y - 1)) := by
  have hone : finite (y - 1) = finite y - 1 := by rw [Extended.one_eq, Extended.finite_sub]
  have hne : (finite x == finite y) = false :=
    Bool.eq_false_iff.mpr fun heq => h.ne (Extended.finite_beq.mp heq)
  rw [niceSpan_error_iff_noRoundEnds hzone, hone]
  exact (noRoundEnds_of_lt rfl rfl (Extended.lt_asymm (Extended.finite_lt.mpr h)) hne).trans
    (noFloor_or_noCeil_iff (Interval.keepsToCalendar_forSpan x y hcount) hzone)

/-- Round ends fail for no other reason than that they lie outside the calendar. -/
theorem niceSpan_error_iff (hzone : zone.Lags) (hcount : 1 ≤ count) :
    niceSpan zone a b count = .error fault ↔ fault = .outsideCalendar ∧ NicesOutside zone a b count := by
  constructor
  · intro herror
    by_cases hends : ∃ x y, x < y ∧ AreEnds a b x y
    · obtain ⟨x, y, hlt, hends⟩ := hends
      have hspan : niceSpan zone (finite x) (finite y) count = .error fault := by
        rcases hends with ⟨rfl, rfl⟩ | ⟨rfl, rfl⟩
        · exact herror
        · rw [niceSpan_finite_swap hlt] at herror
          exact Outcome.map_eq_error_iff.mp herror
      obtain ⟨hfault, hedge⟩ := (niceSpan_error_of_lt hzone hcount hlt).mp hspan
      exact ⟨hfault, x, y, hlt, hends, hedge⟩
    · have hok : niceSpan zone a b count = .ok (a, b) :=
        niceSpan_of_not_areEnds fun x y hlt hxy => hends ⟨x, y, hlt, hxy⟩
      exact nomatch herror.symm.trans hok
  · rintro ⟨hfault, x, y, hlt, hends, hedge⟩
    have hspan := (niceSpan_error_of_lt hzone hcount hlt).mpr ⟨hfault, hedge⟩
    rcases hends with ⟨rfl, rfl⟩ | ⟨rfl, rfl⟩
    · exact hspan
    · rw [niceSpan_finite_swap hlt, hspan]
      rfl

/-! ## Ticks -/

/-- Ticks fail for no other reason than that they are looked for outside the calendar. -/
theorem spanTicks_error (hzone : zone.Lags) (h : spanTicks zone a b count = .error fault) :
    fault = .outsideCalendar ∧ TicksOutside zone a b count := by
  have hrange : ∀ x y : ℝ, x ≤ y → 1 ≤ count →
      (Interval.forSpan (finite x) (finite y) count).range zone (finite x) (finite y) = .error fault →
        fault = .outsideCalendar ∧
          let i := Interval.forSpan (finite x) (finite y) count
          i.IsBeforeFirst zone (finite (x - 1)) ∨ ∃ last, last ≤ finite y ∧ i.IsFromLast zone last := by
    intro x y hle hcount herror
    have hone : finite (x - 1) = finite x - 1 := by rw [Extended.one_eq, Extended.finite_sub]
    obtain ⟨hfault, hedge⟩ := Interval.range_error (Interval.keepsToCalendar_forSpan x y hcount) hzone herror
    refine ⟨hfault, ?_⟩
    rw [← hone] at hedge
    rcases hedge with hbefore | hlast | hlast
    · exact .inl hbefore
    · exact .inr ⟨_, Extended.finite_le.mpr (by linarith), hlast⟩
    · exact .inr hlast
  obtain ⟨hcount, ha, hb, herror⟩ := spanTicks_error_range h
  obtain ⟨x, rfl⟩ := Extended.isFinite_iff.mp ha
  obtain ⟨y, rfl⟩ := Extended.isFinite_iff.mp hb
  by_cases hreversed : finite y < finite x
  · have hle : y ≤ x := (Extended.finite_lt.mp hreversed).le
    rw [if_pos hreversed, if_pos hreversed] at herror
    obtain ⟨hfault, hedge⟩ := hrange y x hle hcount herror
    exact ⟨hfault, y, x, hle, .inr ⟨rfl, rfl⟩, hedge⟩
  · have hle : x ≤ y := not_lt.mp (mt Extended.finite_lt.mpr hreversed)
    rw [if_neg hreversed, if_neg hreversed] at herror
    obtain ⟨hfault, hedge⟩ := hrange x y hle hcount herror
    exact ⟨hfault, x, y, hle, .inl ⟨rfl, rfl⟩, hedge⟩

/-! ## Spans away from the ends -/

/-- The milliseconds of an instant are those of its second. -/
theorem Interval.instantOf?_bounds {t : Instant} (h : Interval.instantOf? a = some t) :
    ∃ z : ℝ, a = finite z ∧ 1000 * t.second - 1 < z ∧ z < 1000 * t.second + 1001 := by
  obtain ⟨hstart, hend, -⟩ := Interval.instantOf?_spec h
  rw [calendarStart_eq] at hstart
  rw [calendarEnd_eq] at hend
  unfold Interval.instantOf? at h
  split at h
  next hfinite =>
    obtain ⟨z, rfl⟩ := Extended.isFinite_iff.mp hfinite
    have hsecond : t.second = Scalar.toInt64 (finite z) / 1000 := by
      unfold Instant.ofMillis? at h
      dsimp only at h
      split at h
      · cases h
        rfl
      · nomatch h
    -- the number is not cut off, since the calendar holds the instant
    have hwhole : Scalar.toInt64 (finite z) = Extended.truncate (finite z) := by
      have hclamp : Scalar.toInt64 (finite z)
          = max (-0x8000000000000000) (min 0x7FFFFFFFFFFFFFFF (Extended.truncate (finite z))) := rfl
      omega
    have hnear : (Extended.truncate (finite z) : ℝ) - 1 < z ∧ z < Extended.truncate (finite z) + 1 := by
      show (((if z < 0 then ⌈z⌉ else ⌊z⌋ : ℤ)) : ℝ) - 1 < z ∧ z < ((if z < 0 then ⌈z⌉ else ⌊z⌋ : ℤ) : ℝ) + 1
      split
      · have hle := Int.le_ceil z
        have hlt := Int.ceil_lt_add_one z
        exact ⟨by linarith, by linarith⟩
      · have hle := Int.floor_le z
        have hlt := Int.lt_floor_add_one z
        exact ⟨by linarith, by linarith⟩
    rw [← hwhole] at hnear
    have hbelow : 1000 * t.second ≤ Scalar.toInt64 (finite z) := by omega
    have habove : Scalar.toInt64 (finite z) ≤ 1000 * t.second + 999 := by omega
    have hbelow' : 1000 * (t.second : ℝ) ≤ Scalar.toInt64 (finite z) := by exact_mod_cast hbelow
    have habove' : (Scalar.toInt64 (finite z) : ℝ) ≤ 1000 * t.second + 999 := by exact_mod_cast habove
    exact ⟨z, rfl, by linarith, by linarith⟩
  next => nomatch h

/-- Five days after its start the calendar has had its first boundaries. -/
theorem Interval.not_isBeforeFirst {i : Interval} (hzone : zone.Lags) (h : 1000 * (calendarStart + 5 * 86400) ≤ x) :
    ¬ i.IsBeforeFirst zone (finite x) := by
  rintro ⟨-, reading, ⟨t, ht, rfl⟩, hlt⟩
  obtain ⟨z, hz, -, hbound⟩ := Interval.instantOf?_bounds ht
  cases hz
  have hoffset := hzone.offsetAt_bounds t.second
  have hfirst : i.firstBoundary ≤ calendarStart + 3 * 86400 := by
    unfold Interval.firstBoundary
    split <;> omega
  have hsecond : t.second + 1 ≤ calendarStart + 4 * 86400 := by omega
  have hsecond' : (t.second : ℝ) + 1 ≤ calendarStart + 4 * 86400 := by exact_mod_cast hsecond
  linarith

/-- Eight days before its end the calendar has the last boundaries ahead. -/
theorem Interval.not_isFromLast {i : Interval} (hi : i.unit ≠ .millisecond → i.KeepsToCalendar) (hzone : zone.Lags)
    (h : x ≤ 1000 * (calendarEnd - 8 * 86400)) (hle : a ≤ finite x) : ¬ i.IsFromLast zone a := by
  rintro ⟨reading, last, ⟨t, ht, rfl⟩, hlast, hge⟩
  obtain ⟨z, rfl, hbound, -⟩ := Interval.instantOf?_bounds ht
  rw [Extended.finite_le] at hle
  have hoffset := hzone.offsetAt_bounds t.second
  cases hstep : i.stepSeconds? with
  | none => exact nomatch (Interval.lastBoundary?_of_stepSeconds?_eq_none hstep).symm.trans hlast
  | some n =>
    have hunit : i.unit ≠ .millisecond := fun hunit =>
      nomatch (Interval.stepSeconds?_of_millisecond hunit).symm.trans hstep
    obtain ⟨hfew, hreach⟩ := (hi hunit).lastBoundary n last hstep hlast
    have hsecond : calendarEnd - 7 * 86400 ≤ t.second := by omega
    have hsecond' : (calendarEnd : ℝ) - 7 * 86400 ≤ t.second := by exact_mod_cast hsecond
    linarith

/-- All but the first five and the last eight days of the calendar have round ends and ticks for every span. -/
theorem exists_niceSpan_spanTicks (hzone : zone.Lags) (hcount : 1 ≤ count)
    (hx : 1000 * (calendarStart + 5 * 86400) + 1 ≤ x) (hxy : x ≤ y) (hy : y ≤ 1000 * (calendarEnd - 8 * 86400))
    (hends : AreEnds a b x y) :
    (∃ ends, niceSpan zone a b count = .ok ends) ∧ ∃ ticks, spanTicks zone a b count = .ok ticks := by
  have hsame : ∀ x' y', x' ≤ y' → AreEnds a b x' y' → x' = x ∧ y' = y := by
    intro x' y' hle hends'
    rcases hends with ⟨rfl, rfl⟩ | ⟨rfl, rfl⟩ <;> rcases hends' with ⟨h, h'⟩ | ⟨h, h'⟩ <;> cases h <;> cases h'
    · exact ⟨rfl, rfl⟩
    · exact ⟨le_antisymm hle hxy, le_antisymm hxy hle⟩
    · exact ⟨le_antisymm hle hxy, le_antisymm hxy hle⟩
    · exact ⟨rfl, rfl⟩
  have hlast : ∀ last, last ≤ finite y → ¬ (Interval.forSpan (finite x) (finite y) count).IsFromLast zone last :=
    fun last hle => Interval.not_isFromLast (Interval.keepsToCalendar_forSpan x y hcount) hzone hy hle
  constructor
  · cases hnice : niceSpan zone a b count with
    | ok ends => exact ⟨ends, rfl⟩
    | error fault =>
      obtain ⟨-, x', y', hlt, hends', hedge⟩ := (niceSpan_error_iff hzone hcount).mp hnice
      obtain ⟨rfl, rfl⟩ := hsame x' y' hlt.le hends'
      rcases hedge with hbefore | hbefore | hfrom
      · exact absurd hbefore (Interval.not_isBeforeFirst hzone (by linarith))
      · exact absurd hbefore (Interval.not_isBeforeFirst hzone (by linarith))
      · exact absurd hfrom (hlast _ (Extended.finite_le.mpr (by linarith)))
  · cases hticks : spanTicks zone a b count with
    | ok ticks => exact ⟨ticks, rfl⟩
    | error fault =>
      obtain ⟨-, x', y', hle, hends', hedge⟩ := spanTicks_error hzone hticks
      obtain ⟨rfl, rfl⟩ := hsame x' y' hle hends'
      rcases hedge with hbefore | ⟨last, hle', hfrom⟩
      · exact absurd hbefore (Interval.not_isBeforeFirst hzone (by linarith))
      · exact absurd hfrom (hlast last hle')

/-! ## Whole milliseconds -/

/-- Milliseconds of the calendar. -/
structure InCalendar (ms : ℤ) : Prop where
  le : 1000 * calendarStart ≤ ms
  lt : ms < 1000 * calendarEnd

theorem InCalendar.small {ms : ℤ} (h : InCalendar ms) : |ms| ≤ 2 ^ 53 := by
  have hle := h.le
  have hlt := h.lt
  have hstart := calendarStart_eq
  have hend := calendarEnd_eq
  exact abs_le.mpr ⟨by omega, by omega⟩

namespace Interval

variable (α : Type) [Scalar α] in
/-- Spans of the calendar are cut by numbers of years that a remainder can be taken of. -/
class CutsShort : Prop where
  shortStep_ofYears : ∀ {a b : ℤ} {count : ℕ}, InCalendar a → InCalendar b → 1 ≤ count →
    (Scalar.ofInt yearLength : α) ≤ partLength (Scalar.ofInt a) (Scalar.ofInt b) count →
      (ofYears (Scalar.ofInt a : α) (Scalar.ofInt b) count).shortStep ≠ 0

instance instCutsShort : CutsShort Extended where
  shortStep_ofYears := by
    intro a b count _ _ hcount hlong
    refine shortStep_ofYears (fun hab => ?_) hcount
    obtain rfl : a = b := by exact_mod_cast hab
    rw [Extended.ofInt_eq, Extended.ofInt_eq, partLength_self, Extended.finite_le, Int.cast_nonpos] at hlong
    exact absurd hlong (by decide)

/-- The calendar reaches less than 264300 years of 365 days from 1970. -/
instance instCutsShortDoubleOf {m : MathLibrary} [m.IsAccurate] : CutsShort (DoubleOf m) where
  shortStep_ofYears := by
    intro a b count ha hb hcount _
    have hbound : ∀ {ms : ℤ}, InCalendar ms → |Double.value (Decimal.floatOfInt ms)| ≤ 31536000000 * (264300 : ℕ) := by
      intro ms h
      have hle := h.le
      have hlt := h.lt
      have hstart := calendarStart_eq
      have hend := calendarEnd_eq
      have hyears : |ms| ≤ 31536000000 * 264300 := abs_le.mpr ⟨by omega, by omega⟩
      rw [Double.value_floatOfInt h.small]
      exact_mod_cast hyears
    have hstep := step_ofYears_le (m := m) (d := 2) (show 2 ≤ 10 by decide) (show 2 * 264300 ≤ 9000 * 10 ^ 2 by decide)
      (u := Scalar.ofInt a) (v := Scalar.ofInt b) (Double.isFinite_ofInt ha.small) (hbound ha)
      (Double.isFinite_ofInt hb.small) (hbound hb) hcount
    have hpos := (ofYears (Scalar.ofInt a : DoubleOf m) (Scalar.ofInt b) count).step_pos
    unfold shortStep
    omega

variable {α : Type} [Scalar α] {a b : ℤ} {i : Interval} {zone : Zone} {count : ℕ} {x : α} {t : Instant}

theorem keepsToCalendar_forSpan_ofInt [CutsShort α] (ha : InCalendar a) (hb : InCalendar b) (hcount : 1 ≤ count)
    (hunit : (forSpan (Scalar.ofInt a : α) (Scalar.ofInt b) count).unit ≠ .millisecond) :
    (forSpan (Scalar.ofInt a : α) (Scalar.ofInt b) count).KeepsToCalendar := by
  rcases forSpan_kinds (Scalar.ofInt a : α) (Scalar.ofInt b) count with ⟨-, heq⟩ | ⟨w, hw, heq⟩ | ⟨hlong, heq⟩
  · exact absurd (congrArg Interval.unit heq) hunit
  · rw [heq]
    exact keepsToCalendar_of_mem_usual hw
  · rw [heq]
    exact keepsToCalendar_of_stepSeconds?_eq_none rfl nofun (CutsShort.shortStep_ofYears ha hb hcount hlong)

theorem second_of_instantOf? (h : instantOf? x = some t) : t.second = Scalar.toInt64 x / 1000 := by
  unfold instantOf? Instant.ofMillis? at h
  split at h
  · dsimp only at h
    split at h
    · cases h
      rfl
    · nomatch h
  · nomatch h

variable [CountsExactly α]

theorem not_isBeforeFirst_ofInt (hzone : zone.Lags) (ha : |a| ≤ 2 ^ 53)
    (h : 1000 * (calendarStart + 5 * 86400) ≤ a) : ¬ i.IsBeforeFirst zone (Scalar.ofInt a : α) := by
  rintro ⟨-, reading, ⟨t, ht, rfl⟩, hlt⟩
  have hsecond := second_of_instantOf? ht
  rw [CountsExactly.toInt64_ofInt ha] at hsecond
  have hoffset := hzone.offsetAt_bounds t.second
  have hfirst : i.firstBoundary ≤ calendarStart + 3 * 86400 := by
    unfold firstBoundary
    split <;> omega
  omega

theorem not_isFromLast_of_le_ofInt (hi : i.unit ≠ .millisecond → i.KeepsToCalendar) (hzone : zone.Lags)
    (ha : |a| ≤ 2 ^ 53) (h : a ≤ 1000 * (calendarEnd - 8 * 86400)) (hle : x ≤ Scalar.ofInt a) :
    ¬ i.IsFromLast zone x := by
  rintro ⟨reading, last, ⟨t, ht, rfl⟩, hlast, hge⟩
  have hsecond := second_of_instantOf? ht
  have hwhole : Scalar.toInt64 x ≤ a := CountsExactly.toInt64_le ha hle
  have hoffset := hzone.offsetAt_bounds t.second
  cases hstep : i.stepSeconds? with
  | none => exact nomatch (lastBoundary?_of_stepSeconds?_eq_none hstep).symm.trans hlast
  | some n =>
    have hunit : i.unit ≠ .millisecond := fun hunit => nomatch (stepSeconds?_of_millisecond hunit).symm.trans hstep
    obtain ⟨hfew, hreach⟩ := (hi hunit).lastBoundary n last hstep hlast
    omega

end Interval

section

variable {α : Type} [Scalar α] [CountsExactly α] [Interval.CutsShort α] {zone : Zone} {a b : ℤ} {count : ℕ}
  {fault : IntervalFault}

theorem niceSpan_ofInt_error_iff (hzone : zone.Lags) (hcount : 1 ≤ count) (ha : InCalendar a) (hb : InCalendar b)
    (hab : a ≤ b) :
    niceSpan zone (Scalar.ofInt a : α) (Scalar.ofInt b) count = .error fault ↔ fault = .outsideCalendar ∧ a < b ∧
      let i := Interval.forSpan (Scalar.ofInt a : α) (Scalar.ofInt b) count
      i.IsBeforeFirst zone (Scalar.ofInt a : α) ∨ i.IsBeforeFirst zone (Scalar.ofInt (b - 1) : α) ∨
        i.IsFromLast zone (Scalar.ofInt (b - 1) : α) := by
  rcases hab.eq_or_lt with rfl | hlt
  · rw [niceSpan_ofInt_self zone ha.small]
    exact iff_of_false nofun fun h => lt_irrefl a h.2.1
  · have hone : (Scalar.ofInt (b - 1) : α) = Scalar.ofInt b - 1 :=
      (ofInt_sub_one hb.small ((neg_le_of_abs_le ha.small).trans_lt hlt)).symm
    have hsorted : ¬ (Scalar.ofInt b : α) < Scalar.ofInt a := fun h =>
      hlt.not_gt ((CountsExactly.lt_ofInt hb.small ha.small).mp h)
    have hne : ((Scalar.ofInt a : α) == Scalar.ofInt b) = false :=
      (CountsExactly.beq_ofInt ha.small hb.small).trans (decide_eq_false hlt.ne)
    rw [niceSpan_error_iff_noRoundEnds hzone, hone]
    refine (noRoundEnds_of_lt (CountsExactly.isFinite_ofInt ha.small) (CountsExactly.isFinite_ofInt hb.small) hsorted
      hne).trans ((noFloor_or_noCeil_iff (Interval.keepsToCalendar_forSpan_ofInt ha hb hcount) hzone).trans ?_)
    exact and_congr_right fun _ => (and_iff_right hlt).symm

/-- The two numbers count the milliseconds `a` and `b`, in either order. -/
def CountEnds (u v : α) (a b : ℤ) : Prop :=
  u = Scalar.ofInt a ∧ v = Scalar.ofInt b ∨ u = Scalar.ofInt b ∧ v = Scalar.ofInt a

/-- Round ends of whole milliseconds fail for the same reason in either order. -/
theorem CountEnds.niceSpan_error_iff {u v : α} (h : CountEnds u v a b) (hzone : zone.Lags) (hcount : 1 ≤ count)
    (ha : InCalendar a) (hb : InCalendar b) (hab : a ≤ b) :
    niceSpan zone u v count = .error fault ↔ fault = .outsideCalendar ∧ a < b ∧
      let i := Interval.forSpan (Scalar.ofInt a : α) (Scalar.ofInt b) count
      i.IsBeforeFirst zone (Scalar.ofInt a : α) ∨ i.IsBeforeFirst zone (Scalar.ofInt (b - 1) : α) ∨
        i.IsFromLast zone (Scalar.ofInt (b - 1) : α) := by
  have hsorted : niceSpan zone (Scalar.ofInt a : α) (Scalar.ofInt b) count = .error fault ↔ _ :=
    niceSpan_ofInt_error_iff hzone hcount ha hb hab
  rcases h with ⟨rfl, rfl⟩ | ⟨rfl, rfl⟩
  · exact hsorted
  · rcases hab.eq_or_lt with rfl | hlt
    · exact hsorted
    · rw [niceSpan_ofInt_swap zone hlt ha.small hb.small, Outcome.map_eq_error_iff]
      exact hsorted

omit [Interval.CutsShort α] in
/-- The ends in order. -/
theorem CountEnds.sorted {u v : α} (h : CountEnds u v a b) (ha : |a| ≤ 2 ^ 53) (hb : |b| ≤ 2 ^ 53) (hab : a ≤ b) :
    (if v < u then v else u) = Scalar.ofInt a ∧ (if v < u then u else v) = Scalar.ofInt b := by
  rcases h with ⟨rfl, rfl⟩ | ⟨rfl, rfl⟩
  · have hnot : ¬ (Scalar.ofInt b : α) < Scalar.ofInt a := fun hlt =>
      hab.not_gt ((CountsExactly.lt_ofInt hb ha).mp hlt)
    rw [if_neg hnot, if_neg hnot]
    exact ⟨rfl, rfl⟩
  · rcases hab.eq_or_lt with rfl | hlt
    · exact ⟨ite_self _, ite_self _⟩
    · have hlt' : (Scalar.ofInt a : α) < Scalar.ofInt b := (CountsExactly.lt_ofInt ha hb).mpr hlt
      rw [if_pos hlt', if_pos hlt']
      exact ⟨rfl, rfl⟩

theorem spanTicks_ofInt_error (hzone : zone.Lags) (ha : InCalendar a) (hb : InCalendar b) (hab : a ≤ b) {u v : α}
    (hends : CountEnds u v a b) (h : spanTicks zone u v count = .error fault) :
    fault = .outsideCalendar ∧
      let i := Interval.forSpan (Scalar.ofInt a : α) (Scalar.ofInt b) count
      i.IsBeforeFirst zone (Scalar.ofInt (a - 1) : α) ∨ ∃ last : α, last ≤ Scalar.ofInt b ∧ i.IsFromLast zone last := by
  obtain ⟨hcount, -, -, herror⟩ := spanTicks_error_range h
  obtain ⟨hlo, hhi⟩ := hends.sorted ha.small hb.small hab
  rw [hlo, hhi] at herror
  have hstart := ha.le
  have hlow : -2 ^ 53 < a := by
    rw [calendarStart_eq] at hstart
    omega
  have hone : (Scalar.ofInt (a - 1) : α) = Scalar.ofInt a - 1 := (ofInt_sub_one ha.small hlow).symm
  obtain ⟨hfault, hedge⟩ := Interval.range_error (Interval.keepsToCalendar_forSpan_ofInt ha hb hcount) hzone herror
  refine ⟨hfault, ?_⟩
  rw [← hone] at hedge
  rcases hedge with hbefore | hlast | hlast
  · exact .inl hbefore
  · have hsmall : |a - 1| ≤ 2 ^ 53 := by
      have hbound := (abs_le.mp ha.small).2
      exact abs_le.mpr ⟨by omega, by omega⟩
    exact .inr ⟨_, (CountsExactly.le_ofInt hsmall hb.small).mpr (by omega), hlast⟩
  · exact .inr hlast

/-- **Whole milliseconds leave the calendar only at its ends**, in doubles as in exact arithmetic. Round ends of a span
of milliseconds of the calendar fail exactly if the clocks show a reading before the first boundary at the lower end or
a millisecond before the upper one, or the last boundary or a later reading there. Ticks fail only before the first
boundary, or if the last one is not after the end of the span. Neither fails from five days after the start of the
calendar to eight days before its end. -/
theorem millis_leave_only_at_ends (hzone : zone.Lags) (hcount : 1 ≤ count) (ha : InCalendar a) (hb : InCalendar b)
    (hab : a ≤ b) {u v : α} (hends : CountEnds u v a b) :
    let i := Interval.forSpan (Scalar.ofInt a : α) (Scalar.ofInt b) count
    (∀ fault, niceSpan zone u v count = .error fault ↔ fault = .outsideCalendar ∧ a < b ∧
      (i.IsBeforeFirst zone (Scalar.ofInt a : α) ∨ i.IsBeforeFirst zone (Scalar.ofInt (b - 1) : α) ∨
        i.IsFromLast zone (Scalar.ofInt (b - 1) : α))) ∧
    (∀ fault, spanTicks zone u v count = .error fault → fault = .outsideCalendar ∧
      (i.IsBeforeFirst zone (Scalar.ofInt (a - 1) : α) ∨
        ∃ last : α, last ≤ Scalar.ofInt b ∧ i.IsFromLast zone last)) ∧
    (1000 * (calendarStart + 5 * 86400) < a → b ≤ 1000 * (calendarEnd - 8 * 86400) →
      (∃ rounded, niceSpan zone u v count = .ok rounded) ∧ ∃ ticks, spanTicks zone u v count = .ok ticks) := by
  intro i
  have hnice : ∀ fault, niceSpan zone u v count = .error fault ↔ fault = .outsideCalendar ∧ a < b ∧
      (i.IsBeforeFirst zone (Scalar.ofInt a : α) ∨ i.IsBeforeFirst zone (Scalar.ofInt (b - 1) : α) ∨
        i.IsFromLast zone (Scalar.ofInt (b - 1) : α)) := fun _ =>
    hends.niceSpan_error_iff hzone hcount ha hb hab
  have hticks : ∀ fault, spanTicks zone u v count = .error fault → fault = .outsideCalendar ∧
      (i.IsBeforeFirst zone (Scalar.ofInt (a - 1) : α) ∨
        ∃ last : α, last ≤ Scalar.ofInt b ∧ i.IsFromLast zone last) := fun _ =>
    spanTicks_ofInt_error hzone ha hb hab hends
  refine ⟨hnice, hticks, fun hlow hhigh => ?_⟩
  have hsmall : ∀ n, a ≤ n + 1 → n ≤ b → |n| ≤ 2 ^ 53 := by
    intro n hn hn'
    have hbound := (abs_le.mp hb.small).2
    rw [calendarStart_eq] at hlow
    exact abs_le.mpr ⟨by omega, by omega⟩
  have hfirst : ∀ n, a ≤ n + 1 → n ≤ b → ¬ i.IsBeforeFirst zone (Scalar.ofInt n : α) := fun n hn hn' =>
    Interval.not_isBeforeFirst_ofInt hzone (hsmall n hn hn') (by omega)
  have hlast : ∀ last : α, last ≤ Scalar.ofInt b → ¬ i.IsFromLast zone last := fun last =>
    Interval.not_isFromLast_of_le_ofInt (Interval.keepsToCalendar_forSpan_ofInt ha hb hcount) hzone hb.small hhigh
  constructor
  · cases hspan : niceSpan zone u v count with
    | ok rounded => exact ⟨rounded, rfl⟩
    | error fault =>
      obtain ⟨-, hlt, hbefore | hbefore | hfrom⟩ := (hnice fault).mp hspan
      · exact absurd hbefore (hfirst a (by omega) hab)
      · exact absurd hbefore (hfirst _ (by omega) (by omega))
      · exact absurd hfrom (hlast _ ((CountsExactly.le_ofInt (hsmall _ (by omega) (by omega)) hb.small).mpr (by omega)))
  · cases hspan : spanTicks zone u v count with
    | ok ticks => exact ⟨ticks, rfl⟩
    | error fault =>
      obtain ⟨-, hbefore | ⟨last, hle, hfrom⟩⟩ := hticks fault hspan
      · exact absurd hbefore (hfirst _ (by omega) (by omega))
      · exact absurd hfrom (hlast last hle)

end

end Calendar

end VisualEncoding
