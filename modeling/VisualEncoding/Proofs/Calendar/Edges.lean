import VisualEncoding.Proofs.Calendar.EasternClock

/-!
# The ends of the calendar

The calendar holds the seconds from `calendarStart` to `calendarEnd`. An interval whose boundaries are counted in
seconds, days or weeks has a first boundary in it and a last one: a reading before the first has no boundary to go
back to, and from the last one step on there is no reading (`Interval.KeepsToCalendar`). Months and years come to an
end without harm. The calendar starts on a Thursday and ends on a Monday.
-/

namespace VisualEncoding.Calendar

/-! ## Seconds of the calendar -/

/-- The second at which the calendar starts. -/
def calendarStart : ℤ := Zone.yearStart leastYear

/-- The second at which the calendar has ended. -/
def calendarEnd : ℤ := Zone.yearStart (greatestYear + 1)

theorem calendarStart_eq : calendarStart = -8334601228800 := by decide

theorem calendarEnd_eq : calendarEnd = 8210266876800 := by decide

theorem Instant.inRange_iff (t : Instant) :
    t.inRange = true ↔ calendarStart ≤ t.second ∧ t.second < calendarEnd := by
  obtain ⟨hle, hlt⟩ := Zone.yearOf_spec t.second
  have hfirst := Zone.yearStart_cases leastYear (Zone.yearOf t.second)
  have hlast := Zone.yearStart_cases greatestYear (Zone.yearOf t.second)
  have hyear : t.inRange = decide (leastYear ≤ Zone.yearOf t.second ∧ Zone.yearOf t.second ≤ greatestYear) := rfl
  rw [hyear, decide_eq_true_iff]
  generalize Zone.yearOf t.second = year at *
  unfold calendarStart calendarEnd Zone.yearStart leastYear greatestYear daysBeforeYear at *
  dsimp only at *
  omega

/-- A reading of a day and a time of day, with any fraction of a second. -/
structure ClockReading.IsRegular (c : ClockReading) : Prop where
  isDay : c.date.IsDay
  second_lt : c.second < secondsPerDay
  nano_lt : c.nano < nanosPerSecond

namespace ClockReading

variable {c : ClockReading} {n : ℕ}

theorem IsWhole.isRegular (h : c.IsWhole) : c.IsRegular :=
  ⟨h.isDay, h.second_lt, by rw [h.nano_eq]; decide⟩

theorem IsRegular.inRange_iff (h : c.IsRegular) :
    c.date.inRange = true ↔ calendarStart ≤ c.toInstant.second ∧ c.toInstant.second < calendarEnd := by
  rw [← c.toInstant.inRange_iff, Instant.inRange, clock_toInstant h.isDay h.second_lt]

/-- The reading a number of seconds later, in the calendar or not. -/
theorem IsRegular.addSeconds?_eq (h : c.IsRegular) (n : ℕ) :
    ∃ later : ClockReading, later.IsRegular ∧ later.toInstant.second = c.toInstant.second + n ∧
      c.addSeconds? n = if later.date.inRange then some later else none := by
  have hnano : c.nano / nanosPerSecond = 0 := Nat.div_eq_of_lt h.nano_lt
  have hday := Date.days_ofDays (c.date.days + ((c.second : ℤ) + n) / (secondsPerDay : ℕ))
  refine ⟨{ date := Date.ofDays (c.date.days + ((c.second : ℤ) + n) / (secondsPerDay : ℕ))
            second := (((c.second : ℤ) + n) % (secondsPerDay : ℕ)).toNat
            nano := c.nano % nanosPerSecond }, ⟨Date.isDay_ofDays _, ?_, Nat.mod_lt _ (by decide)⟩, ?_, ?_⟩
  · unfold secondsPerDay
    dsimp only
    omega
  · rw [second_toInstant, second_toInstant]
    dsimp only
    rw [hday]
    unfold secondsPerDay
    omega
  · unfold addSeconds? Date.addDays?
    dsimp only
    rw [hnano, Nat.cast_zero, add_zero]
    split <;> rfl

/-- A number of seconds later there is a reading if the calendar has not ended by then. -/
theorem IsRegular.addSeconds?_of_lt (h : c.IsRegular) (hle : calendarStart ≤ c.toInstant.second)
    (hlt : c.toInstant.second + n < calendarEnd) :
    ∃ later, c.addSeconds? n = some later ∧ later.IsRegular ∧ later.toInstant.second = c.toInstant.second + n := by
  obtain ⟨later, hregular, hsecond, hadd⟩ := h.addSeconds?_eq n
  rw [if_pos (hregular.inRange_iff.mpr (by omega))] at hadd
  exact ⟨later, hadd, hregular, hsecond⟩

theorem IsRegular.addSeconds?_of_le (h : c.IsRegular) (hle : calendarEnd ≤ c.toInstant.second + n) :
    c.addSeconds? n = none := by
  obtain ⟨later, hregular, hsecond, hadd⟩ := h.addSeconds?_eq n
  rwa [if_neg (by rw [hregular.inRange_iff]; omega)] at hadd

/-- Midnight of a day of the calendar is a reading of it. -/
theorem isWhole_startOf {date : Date} (hday : date.IsDay) (hrange : date.inRange = true) : (startOf date).IsWhole :=
  ⟨hday, hrange, Nat.zero_lt_succ _, rfl⟩

end ClockReading

/-! ## Boundaries of the calendar -/

namespace Interval

variable {i : Interval} {c : ClockReading} {n k : ℕ} {e : ℤ}

/-- The seconds that a step takes on a clock; nothing if it counts months or years. -/
def stepSeconds? (i : Interval) : Option ℕ :=
  match i.unit with
  | .second => some (i.step * 1)
  | .minute => some (i.step * 60)
  | .hour => some (i.step * 3600)
  | .day => some (i.step * 86400)
  | .week => some (i.step * (7 * 86400))
  | .millisecond | .month | .year => none

/-- The first reading from which there is a boundary to go back to: a Sunday for weeks. -/
def firstBoundary (i : Interval) : ℤ := if i.unit = .week then calendarStart + 3 * 86400 else calendarStart

/-- The last boundary of the calendar, from which no step leads on: the last of equal parts of the last day, that day,
or a Sunday. -/
def lastBoundary? (i : Interval) : Option ℤ :=
  i.stepSeconds?.map fun n =>
    match i.unit with
    | .day => calendarEnd - 86400
    | .week => calendarEnd - 2 * 86400
    | _ => calendarEnd - n

theorem le_firstBoundary (i : Interval) : calendarStart ≤ i.firstBoundary := by
  unfold firstBoundary
  split <;> omega

theorem firstBoundary_of_ne (h : i.unit ≠ .week) : i.firstBoundary = calendarStart := if_neg h

theorem firstBoundary_of_stepSeconds?_eq_none (h : i.stepSeconds? = none) : i.firstBoundary = calendarStart := by
  refine firstBoundary_of_ne fun hunit => ?_
  unfold stepSeconds? at h
  rw [hunit] at h
  nomatch h

/-- A step that takes seconds leads to the reading so many seconds later, or out of the calendar. -/
theorem oneStepAfter_of_stepSeconds? (h : i.stepSeconds? = some n) (c : ClockReading) :
    i.oneStepAfter c = (orFault (c.addSeconds? n)).map some := by
  unfold stepSeconds? at h
  unfold oneStepAfter
  dsimp only
  cases hunit : i.unit <;> rw [hunit] at h
  all_goals cases h
  all_goals
    dsimp only
    cases orFault (c.addSeconds? _) <;> rfl

/-- Months and years later there is a reading of the calendar or none, and either does. -/
theorem oneStepAfter_of_stepSeconds?_eq_none (h : i.stepSeconds? = none) (hunit : i.unit ≠ .millisecond)
    (hc : c.IsRegular) :
    ∃ later?, i.oneStepAfter c = .ok later? ∧
      ∀ later ∈ later?, later.IsRegular ∧ calendarStart ≤ later.toInstant.second := by
  have hmonths : ∀ months : ℕ, ∀ later ∈ (c.date.addMonths? months).map fun date => { c with date },
      later.IsRegular ∧ calendarStart ≤ later.toInstant.second := by
    intro months later hlater
    obtain ⟨date, hdate, rfl⟩ := Option.map_eq_some_iff.mp hlater
    obtain ⟨hday, hrange⟩ := Date.ofParts?_spec hdate
    have hregular : ClockReading.IsRegular { c with date } := ⟨hday, hc.second_lt, hc.nano_lt⟩
    exact ⟨hregular, (hregular.inRange_iff.mp hrange).1⟩
  unfold stepSeconds? at h
  unfold oneStepAfter
  cases hkind : i.unit <;> rw [hkind] at h hunit
  case millisecond => exact absurd rfl hunit
  case month => exact ⟨_, rfl, hmonths _⟩
  case year => exact ⟨_, rfl, hmonths _⟩
  all_goals nomatch h

/-- What an interval makes of the readings of the calendar, from its start to its end. -/
structure KeepsToCalendar (i : Interval) : Prop where
  startOf_of_lt : ∀ c : ClockReading, c.IsRegular → calendarStart ≤ c.toInstant.second →
    c.toInstant.second < i.firstBoundary → i.startOf c = .error .outsideCalendar
  startOf : ∀ c : ClockReading, c.IsRegular → i.firstBoundary ≤ c.toInstant.second → c.toInstant.second < calendarEnd →
    ∃ b?, i.startOf c = .ok b? ∧ ∀ b ∈ b?, b.IsWhole ∧ i.firstBoundary ≤ b.toInstant.second
  lastBoundary : ∀ n e, i.stepSeconds? = some n → i.lastBoundary? = some e → n ≤ 7 * 86400 ∧ calendarEnd ≤ e + n
  /-- Where steps take seconds, a reading has its boundary less than a step before it; and the boundary is the last one
  if the reading is not before that or if one step on there is no reading. -/
  startOf_last : ∀ n e, i.stepSeconds? = some n → i.lastBoundary? = some e →
    ∀ c : ClockReading, c.IsRegular → i.firstBoundary ≤ c.toInstant.second → c.toInstant.second < calendarEnd →
      ∃ b, i.startOf c = .ok (some b) ∧ b.toInstant.second ≤ c.toInstant.second ∧
        c.toInstant.second < b.toInstant.second + n ∧
        (e ≤ c.toInstant.second ∨ calendarEnd ≤ b.toInstant.second + n → e ≤ b.toInstant.second)

/-! ### Parts of a day -/

/-- The last multiple below a whole is found from every number that is not below it. -/
theorem le_mod_multiple {m whole length : ℕ} (hdvd : length ∣ whole) (hpos : 0 < length) (h : whole - length ≤ m) :
    whole - length ≤ m - m % length := by
  obtain ⟨parts, rfl⟩ := hdvd
  have hparts : length * parts - length = length * (parts - 1) := by rw [Nat.mul_sub_one]
  rw [hparts] at h ⊢
  have hle : parts - 1 ≤ m / length := (Nat.le_div_iff_mul_le hpos).mpr (by rwa [Nat.mul_comm])
  rw [← Nat.div_mul_self_eq_mod_sub_self, Nat.mul_comm]
  exact Nat.mul_le_mul_right length hle

theorem DividesDay.keepsToCalendar (h : i.DividesDay n) (hstep : i.stepSeconds? = some n)
    (hfirst : i.firstBoundary = calendarStart) (hlast : i.lastBoundary? = some (calendarEnd - n)) :
    i.KeepsToCalendar := by
  have hpos := h.pos
  have hle : n ≤ 86400 := Nat.le_of_dvd (by decide) h.dvd
  have hstart := calendarStart_eq
  have hend := calendarEnd_eq
  have hspec : ∀ c : ClockReading, c.IsRegular → i.firstBoundary ≤ c.toInstant.second →
      c.toInstant.second < calendarEnd → ∃ b, i.startOf c = .ok (some b) ∧ b.IsWhole ∧
        i.firstBoundary ≤ b.toInstant.second ∧ b.toInstant.second = c.toInstant.second - (c.second % n : ℕ) := by
    intro c hc hafter hbefore
    have hsecond : c.second < 86400 := hc.second_lt
    have hless := Nat.mod_le c.second n
    have htotal := c.second_toInstant
    have hb : ({ c with second := c.second - c.second % n, nano := 0 } : ClockReading).toInstant.second
        = c.toInstant.second - (c.second % n : ℕ) := by
      rw [ClockReading.second_toInstant, ClockReading.second_toInstant]
      dsimp only
      omega
    refine ⟨_, h.startOf c hc.isDay hc.second_lt, ⟨hc.isDay, ?_, ?_, rfl⟩, ?_, hb⟩
    · exact hc.inRange_iff.mpr ⟨by omega, hbefore⟩
    · exact (Nat.sub_le _ _).trans_lt hc.second_lt
    · rw [hb]
      omega
  refine ⟨fun c _ hge hlt => absurd hlt (by omega), fun c hc hafter hbefore => ?_, fun n' e' hn he => ?_,
    fun n' e' hn he c hc hafter hbefore => ?_⟩
  · obtain ⟨b, hb, hwhole, hge, -⟩ := hspec c hc hafter hbefore
    refine ⟨some b, hb, fun b' hb' => ?_⟩
    cases hb'
    exact ⟨hwhole, hge⟩
  · cases hstep.symm.trans hn
    cases hlast.symm.trans he
    omega
  · cases hstep.symm.trans hn
    cases hlast.symm.trans he
    obtain ⟨b, hb, -, -, hsecond⟩ := hspec c hc hafter hbefore
    have hrest : c.second % n < n := Nat.mod_lt _ hpos
    refine ⟨b, hb, by omega, by omega, fun hlate => ?_⟩
    rcases hlate with hlate | hlate
    · -- the reading lies in the last part of the last day
      have htotal := c.second_toInstant
      have hlt : c.second < 86400 := hc.second_lt
      have hmultiple := le_mod_multiple (m := c.second) h.dvd hpos (by omega)
      have hless := Nat.mod_le c.second n
      omega
    · omega

theorem keepsToCalendar_seconds (hpos : 0 < k) (hdvd : k ∣ 60) : (every .second k).KeepsToCalendar := by
  have hstep : (every .second k).stepSeconds? = some k := by
    show some ((every .second k).step * 1) = _
    rw [step_every _ hpos, Nat.mul_one]
  refine (dividesDay_seconds hpos hdvd).keepsToCalendar hstep rfl ?_
  unfold lastBoundary?
  rw [hstep]
  rfl

theorem keepsToCalendar_minutes (hpos : 0 < k) (hdvd : k ∣ 60) : (every .minute k).KeepsToCalendar := by
  have hstep : (every .minute k).stepSeconds? = some (60 * k) := by
    show some ((every .minute k).step * 60) = _
    rw [step_every _ hpos, Nat.mul_comm]
  refine (dividesDay_minutes hpos hdvd).keepsToCalendar hstep rfl ?_
  unfold lastBoundary?
  rw [hstep]
  rfl

theorem keepsToCalendar_hours (hpos : 0 < k) (hdvd : k ∣ 24) : (every .hour k).KeepsToCalendar := by
  have hstep : (every .hour k).stepSeconds? = some (3600 * k) := by
    show some ((every .hour k).step * 3600) = _
    rw [step_every _ hpos, Nat.mul_comm]
  refine (dividesDay_hours hpos hdvd).keepsToCalendar hstep rfl ?_
  unfold lastBoundary?
  rw [hstep]
  rfl

theorem keepsToCalendar_day : (every .day 1).KeepsToCalendar :=
  dividesDay_day.keepsToCalendar rfl rfl rfl

/-! ### Days and weeks -/

/-- A pair of days starts on an odd day of its month, as the last day of the calendar is. -/
theorem keepsToCalendar_two_days : (every .day 2).KeepsToCalendar := by
  have hstart := calendarStart_eq
  have hend := calendarEnd_eq
  have hstep : (every .day 2).stepSeconds? = some (2 * 86400) := rfl
  have hlast : (every .day 2).lastBoundary? = some (calendarEnd - 86400) := rfl
  have hspec : ∀ c : ClockReading, c.IsRegular → calendarStart ≤ c.toInstant.second → c.toInstant.second < calendarEnd →
      (every .day 2).startOf c = .ok (some (.startOf (pairStart c.date))) ∧
        (ClockReading.startOf (pairStart c.date)).IsWhole ∧
          (ClockReading.startOf (pairStart c.date)).toInstant.second
            = (c.date.days - ((c.date.day - 1) % 2 : ℕ)) * 86400 := by
    intro c hc hafter hbefore
    obtain ⟨hday, hdays⟩ := pairStart_spec hc.isDay
    have hrange : c.date.inRange = true := hc.inRange_iff.mpr ⟨hafter, hbefore⟩
    refine ⟨startOf_days (k := 2) (by decide) (by decide) c, ClockReading.isWhole_startOf hday hrange, ?_⟩
    rw [ClockReading.second_startOf, hdays]
  have hlastday : ∀ date : Date, date.IsDay → date.days = calendarEnd / 86400 - 1 → date.day = 31 := by
    intro date hdate hdays
    rw [← Date.ofDays_days hdate, hdays]
    decide
  have hdaybefore : ∀ date : Date, date.IsDay → date.days = calendarEnd / 86400 - 2 → date.day = 30 := by
    intro date hdate hdays
    rw [← Date.ofDays_days hdate, hdays]
    decide
  refine ⟨fun c _ hge hlt => absurd hlt (Int.not_lt.mpr hge), fun c hc hafter hbefore => ?_, fun n e hn he => ?_,
    fun n e hn he c hc hafter hbefore => ?_⟩
  · obtain ⟨hb, hwhole, -⟩ := hspec c hc hafter hbefore
    refine ⟨_, hb, fun b hb' => ?_⟩
    cases hb'
    exact ⟨hwhole, (hwhole.isRegular.inRange_iff.mp hwhole.inRange).1⟩
  · cases hstep.symm.trans hn
    cases hlast.symm.trans he
    omega
  · cases hstep.symm.trans hn
    cases hlast.symm.trans he
    obtain ⟨hb, -, hseconds⟩ := hspec c hc hafter hbefore
    have htotal := c.second_toInstant
    have hless : c.second < 86400 := hc.second_lt
    have hodd := hlastday c.date hc.isDay
    have heven := hdaybefore c.date hc.isDay
    have hpos := hc.isDay.day_pos
    exact ⟨_, hb, by omega, by omega, fun hlate => by omega⟩

/-- The boundary of a week is the Sunday before a reading, if the calendar holds that. -/
theorem startOf_week_cases (c : ClockReading) :
    ∃ sunday : ClockReading, sunday.IsRegular ∧ sunday.nano = 0 ∧
      sunday.toInstant.second = (c.date.days - (c.date.days + 4) % 7) * 86400 ∧
        (every .week 1).startOf c = (orFault (if sunday.date.inRange then some sunday else none)).map some := by
  have hweekday : -(c.date.weekday : ℤ) = -((c.date.days + 4) % 7) := by
    unfold Date.weekday
    omega
  obtain ⟨hday, hdays⟩ := Date.ofDays_spec (c.date.days + -((c.date.days + 4) % 7))
  refine ⟨.startOf (Date.ofDays (c.date.days + -((c.date.days + 4) % 7))),
    ⟨hday, Nat.zero_lt_succ _, Nat.zero_lt_succ _⟩, rfl, ?_, ?_⟩
  · rw [ClockReading.second_startOf, hdays, Int.sub_eq_add_neg]
  · show (orFault (c.date.addDays? (-(c.date.weekday : ℤ)))).bind _ = _
    unfold Date.addDays?
    dsimp only
    rw [hweekday]
    show _ = (orFault (if (Date.ofDays (c.date.days + -((c.date.days + 4) % 7))).inRange then _ else _)).map some
    split <;> rfl

theorem startOf_week_of_le (hc : c.IsRegular) (hafter : calendarStart + 3 * 86400 ≤ c.toInstant.second)
    (hbefore : c.toInstant.second < calendarEnd) :
    ∃ b, (every .week 1).startOf c = .ok (some b) ∧ b.IsWhole ∧
      b.toInstant.second = (c.date.days - (c.date.days + 4) % 7) * 86400 := by
  have hstart := calendarStart_eq
  have hend := calendarEnd_eq
  obtain ⟨sunday, hregular, hnano, hsecond, hstartOf⟩ := startOf_week_cases c
  have htotal := c.second_toInstant
  have hless : c.second < 86400 := hc.second_lt
  have hrange : sunday.date.inRange = true := hregular.inRange_iff.mpr (by omega)
  rw [if_pos hrange] at hstartOf
  exact ⟨sunday, hstartOf, ⟨hregular.isDay, hrange, hregular.second_lt, hnano⟩, hsecond⟩

theorem keepsToCalendar_week : (every .week 1).KeepsToCalendar := by
  have hstart := calendarStart_eq
  have hend := calendarEnd_eq
  have hstep : (every .week 1).stepSeconds? = some (7 * 86400) := rfl
  have hfirst : (every .week 1).firstBoundary = calendarStart + 3 * 86400 := rfl
  have hlast : (every .week 1).lastBoundary? = some (calendarEnd - 2 * 86400) := rfl
  refine ⟨fun c hc hge hlt => ?_, fun c hc hafter hbefore => ?_, fun n e hn he => ?_,
    fun n e hn he c hc hafter hbefore => ?_⟩
  · obtain ⟨sunday, hregular, -, hsecond, hstartOf⟩ := startOf_week_cases c
    have htotal := c.second_toInstant
    have hless : c.second < 86400 := hc.second_lt
    have hrange : ¬ sunday.date.inRange = true := by
      rw [hregular.inRange_iff]
      omega
    rwa [if_neg hrange] at hstartOf
  · obtain ⟨b, hb, hwhole, hsecond⟩ := startOf_week_of_le hc hafter hbefore
    have htotal := c.second_toInstant
    have hless : c.second < 86400 := hc.second_lt
    refine ⟨_, hb, fun b' hb' => ?_⟩
    cases hb'
    exact ⟨hwhole, by omega⟩
  · cases hstep.symm.trans hn
    cases hlast.symm.trans he
    omega
  · cases hstep.symm.trans hn
    cases hlast.symm.trans he
    obtain ⟨b, hb, -, hsecond⟩ := startOf_week_of_le hc hafter hbefore
    have htotal := c.second_toInstant
    have hless : c.second < 86400 := hc.second_lt
    exact ⟨b, hb, by omega, by omega, fun hlate => by omega⟩

/-! ### Months and years -/

/-- A step that counts months or years never leaves the calendar by accident. -/
theorem keepsToCalendar_of_stepSeconds?_eq_none (h : i.stepSeconds? = none) (hunit : i.unit ≠ .millisecond)
    (hstep : i.shortStep ≠ 0) : i.KeepsToCalendar := by
  have hfirst := firstBoundary_of_stepSeconds?_eq_none h
  refine ⟨fun c _ hge hlt => absurd hlt (by omega), fun c hc hafter hbefore => ?_,
    fun n e hn => absurd (h.symm.trans hn) nofun, fun n e hn => absurd (h.symm.trans hn) nofun⟩
  have hrange : c.date.inRange = true := hc.inRange_iff.mpr ⟨by omega, hbefore⟩
  have hwhole : ∀ date : Date, date.IsDay → date.inRange = true →
      (ClockReading.startOf date).IsWhole ∧ i.firstBoundary ≤ (ClockReading.startOf date).toInstant.second := by
    intro date hdate hdaterange
    have hstart := ClockReading.isWhole_startOf hdate hdaterange
    exact ⟨hstart, hfirst ▸ (hstart.isRegular.inRange_iff.mp hdaterange).1⟩
  unfold stepSeconds? at h
  unfold Interval.startOf
  cases hkind : i.unit <;> rw [hkind] at h hunit
  case millisecond => exact absurd rfl hunit
  case month =>
    have halign : i.align (c.date.month - 1) = .ok (c.date.month - 1 - (c.date.month - 1) % i.shortStep) := if_neg hstep
    have hmonth := hc.isDay.month_pos
    have hmonth' := hc.isDay.month_le
    have hlength := (monthLength_pos c.date.year (c.date.month - 1 - (c.date.month - 1) % i.shortStep + 1)).1
    refine ⟨some (.startOf { c.date with
      month := c.date.month - 1 - (c.date.month - 1) % i.shortStep + 1, day := 1 }), ?_, fun b hb => ?_⟩
    · dsimp only
      rw [halign]
      rfl
    · cases hb
      exact hwhole _ ⟨Nat.succ_pos _, by dsimp only; omega, Nat.le_refl _, by dsimp only; omega⟩ hrange
  case year =>
    refine ⟨_, if_neg hstep, fun b hb => ?_⟩
    obtain ⟨date, hdate, rfl⟩ := Option.map_eq_some_iff.mp hb
    obtain ⟨hday, hdaterange⟩ := Date.ofParts?_spec hdate
    exact hwhole date hday hdaterange
  all_goals nomatch h

/-! ### Usual intervals -/

theorem keepsToCalendar_of_mem_usual {w : TimeUnit × ℕ × ℕ} (hw : w ∈ usual) :
    (every w.1 w.2.1).KeepsToCalendar := by
  have hkinds : ∀ w ∈ usual, 0 < w.2.1 ∧ w.2.1 < 0x100000000 ∧
      (w.1 = .second ∧ w.2.1 ∣ 60 ∨ w.1 = .minute ∧ w.2.1 ∣ 60 ∨ w.1 = .hour ∧ w.2.1 ∣ 24 ∨
        w.1 = .day ∧ (w.2.1 = 1 ∨ w.2.1 = 2) ∨ w.1 = .week ∧ w.2.1 = 1 ∨ w.1 = .month ∨ w.1 = .year) := by decide
  obtain ⟨unit, step, length⟩ := w
  obtain ⟨hpos, hlt, hkind⟩ := hkinds _ hw
  dsimp only at hpos hlt hkind ⊢
  rcases hkind with ⟨rfl, hdvd⟩ | ⟨rfl, hdvd⟩ | ⟨rfl, hdvd⟩ | ⟨rfl, rfl | rfl⟩ | ⟨rfl, rfl⟩ | rfl | rfl
  · exact keepsToCalendar_seconds hpos hdvd
  · exact keepsToCalendar_minutes hpos hdvd
  · exact keepsToCalendar_hours hpos hdvd
  · exact keepsToCalendar_day
  · exact keepsToCalendar_two_days
  · exact keepsToCalendar_week
  · exact keepsToCalendar_of_stepSeconds?_eq_none rfl nofun (by rw [shortStep_every _ hpos hlt]; omega)
  · exact keepsToCalendar_of_stepSeconds?_eq_none rfl nofun (by rw [shortStep_every _ hpos hlt]; omega)

end Interval

end VisualEncoding.Calendar
