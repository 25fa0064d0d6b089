import VisualEncoding.Calendar.Interval
import VisualEncoding.Proofs.Calendar.Days

/-!
# Boundaries around a clock reading

The boundary that `startOf` finds is not after the reading, and one step on from it leads to a boundary after the
reading. All readings from the one to the other start at the first, so that there is no boundary between them: they
are a tile of the calendar (`Interval.Tile`). Near the present every reading lies in a tile, for the usual intervals
(`hasTile_of_mem_usual`) and for steps of many years (`countsMonths_years`). The intervals fall into three kinds:
those that divide the day (`DividesDay`), those that count months (`CountsMonths`), and those that count days across
the ends of months or years.
-/

namespace VisualEncoding.Calendar

/-! ## Instants and clock readings -/

namespace ClockReading

variable {c : ClockReading}

/-- A reading of the calendar on a whole second. -/
structure IsWhole (c : ClockReading) : Prop where
  isDay : c.date.IsDay
  inRange : c.date.inRange = true
  second_lt : c.second < secondsPerDay
  nano_eq : c.nano = 0

/-- A reading on a whole second that is no less than some thousand years away from the ends of the calendar. -/
structure IsInner (c : ClockReading) : Prop extends c.IsWhole where
  le_days : -94000000 ≤ c.date.days
  days_le : c.date.days ≤ 94000000

/-- A reading within some twelve thousand years of 1970, with any fraction of a second. -/
structure IsNear (c : ClockReading) : Prop where
  isDay : c.date.IsDay
  second_lt : c.second < secondsPerDay
  le_days : -4400000 ≤ c.date.days
  days_le : c.date.days ≤ 4400000

theorem clock_toInstant (hdate : c.date.IsDay) (hsecond : c.second < secondsPerDay) :
    c.toInstant.clock = c := by
  obtain ⟨date, second, nano⟩ := c
  dsimp only at hdate hsecond
  have hdays : (date.days * secondsPerDay + second) / secondsPerDay = date.days := by
    unfold secondsPerDay at *
    omega
  have hrest : ((date.days * secondsPerDay + second) % secondsPerDay).toNat = second := by
    unfold secondsPerDay at *
    omega
  unfold toInstant Instant.clock
  dsimp only
  rw [hdays, hrest, Date.ofDays_days hdate]

theorem second_toInstant (c : ClockReading) : c.toInstant.second = c.date.days * 86400 + c.second := rfl

theorem IsWhole.inRange_toInstant (h : c.IsWhole) : c.toInstant.inRange = true := by
  unfold Instant.inRange
  rw [clock_toInstant h.isDay h.second_lt]
  exact h.inRange

/-- Seconds are counted across the ends of days. -/
theorem addSeconds?_eq {n : Nat} (hnano : c.nano = 0)
    (hlo : -4500000 ≤ c.date.days) (hhi : c.date.days ≤ 4500000) (hsecond : c.second < secondsPerDay)
    (hn : n ≤ 86400) :
    ∃ later, c.addSeconds? n = some later ∧ later.IsWhole ∧
      later.toInstant.second = c.toInstant.second + n ∧ later.second = (c.second + n) % 86400 := by
  unfold secondsPerDay at hsecond
  have hdate : (Date.ofDays (c.date.days + (c.second + n : Nat) / 86400)).inRange = true :=
    Date.inRange_ofDays (by omega) (by omega)
  refine ⟨⟨Date.ofDays (c.date.days + (c.second + n : Nat) / 86400), (c.second + n) % 86400, 0⟩, ?_, ?_, ?_, rfl⟩
  · have htotal : (c.second : Int) + (c.nano / nanosPerSecond : Nat) + n = (c.second + n : Nat) := by
      rw [hnano, Nat.zero_div]
      omega
    have hrest : (((c.second + n : Nat) : Int) % (secondsPerDay : Nat)).toNat = (c.second + n) % 86400 := by
      unfold secondsPerDay
      omega
    unfold addSeconds? Date.addDays?
    dsimp only
    rw [htotal, hrest, hnano]
    show Option.map _ (if (Date.ofDays (c.date.days + ((c.second + n : Nat) : Int) / 86400)).inRange then _ else _) = _
    rw [if_pos hdate]
    rfl
  · exact ⟨Date.isDay_ofDays _, hdate, Nat.mod_lt _ (by decide), rfl⟩
  · rw [second_toInstant, second_toInstant, Date.days_ofDays]
    dsimp only
    omega

/-- From midnight whole days lead to midnight. -/
theorem addSeconds?_startOf {date : Date} {n : Nat} (hlo : -95000000 ≤ date.days + n)
    (hhi : date.days + n ≤ 95000000) :
    (startOf date).addSeconds? (n * 86400 : Nat) = some (.startOf (Date.ofDays (date.days + n))) := by
  have hdays : ((n * 86400 : Nat) : Int) / (secondsPerDay : Nat) = n := by
    unfold secondsPerDay
    omega
  have hrest : (((n * 86400 : Nat) : Int) % (secondsPerDay : Nat)).toNat = 0 := by
    unfold secondsPerDay
    omega
  have htotal : ((0 : Nat) : Int) + (0 / nanosPerSecond : Nat) + (n * 86400 : Nat) = (n * 86400 : Nat) := by
    rw [Nat.zero_div]
    omega
  unfold addSeconds? Date.addDays? startOf
  dsimp only
  rw [htotal, hdays, hrest, if_pos (Date.inRange_ofDays hlo hhi), Nat.zero_mod]
  rfl

theorem isInner_startOf {date : Date} (h : date.IsDay) (hlo : -94000000 ≤ date.days)
    (hhi : date.days ≤ 94000000) : (startOf date).IsInner := by
  refine ⟨⟨h, ?_, Nat.zero_lt_succ _, rfl⟩, hlo, hhi⟩
  show date.inRange = true
  rw [← Date.ofDays_days h]
  exact Date.inRange_ofDays (by omega) (by omega)

theorem second_startOf (date : Date) : (startOf date).toInstant.second = date.days * 86400 := by
  rw [second_toInstant]
  exact Int.add_zero _

end ClockReading

namespace Interval

variable {i : Interval} {unit : TimeUnit} {c : ClockReading} {k : Nat}

/-- The readings from a boundary to the next. They all start at the first, and the second is where the reading one
step later starts. -/
structure Tile (i : Interval) (boundary later next : ClockReading) : Prop where
  isInner : boundary.IsInner
  isInner_later : later.IsInner
  isInner_next : next.IsInner
  startOf : ∀ c : ClockReading, c.date.IsDay → c.second < secondsPerDay →
    boundary.toInstant.second ≤ c.toInstant.second → c.toInstant.second < next.toInstant.second →
      i.startOf c = .ok (some boundary)
  oneStepAfter : i.oneStepAfter boundary = .ok (some later)
  startOf_later : i.startOf later = .ok (some next)
  startOf_next : i.startOf next = .ok (some next)

/-- There is a tile that a reading lies in. -/
def HasTile (i : Interval) (c : ClockReading) : Prop :=
  ∃ boundary later next, i.Tile boundary later next ∧ boundary.toInstant.second ≤ c.toInstant.second ∧
    c.toInstant.second < next.toInstant.second

/-! ## Steps -/

theorem step_every (unit : TimeUnit) (hpos : 0 < k) : (every unit k).step = k := by
  show max 1 (k : Int).toNat = k
  omega

theorem shortStep_every (unit : TimeUnit) (hpos : 0 < k) (hlt : k < 0x100000000) :
    (every unit k).shortStep = k := by
  unfold shortStep
  rw [step_every unit hpos, Nat.mod_eq_of_lt hlt]

theorem align_every (unit : TimeUnit) (hpos : 0 < k) (hlt : k < 0x100000000) (n : Nat) :
    (every unit k).align n = .ok (n - n % k) := by
  unfold align
  rw [shortStep_every unit hpos hlt, if_neg (by omega)]

/-! ## Parts of a day -/

theorem mod_multiple_add_le {n whole length : Nat} (hdvd : length ∣ whole) (h : n < whole) :
    n - n % length + length ≤ whole := by
  obtain ⟨parts, rfl⟩ := hdvd
  have hpart : n / length + 1 ≤ parts := Nat.div_lt_of_lt_mul h
  have hle := Nat.mul_le_mul_left length hpart
  rw [Nat.mul_succ, Nat.mul_comm, Nat.div_mul_self_eq_mod_sub_self] at hle
  exact hle

/-- The numbers from a multiple to the next have the same multiple below them. -/
theorem mod_multiple_eq {n n' length : Nat} (hle : n - n % length ≤ n') (hlt : n' < n - n % length + length) :
    n' - n' % length = n - n % length := by
  rw [← Nat.div_mul_self_eq_mod_sub_self] at hle hlt
  rw [← Nat.div_mul_self_eq_mod_sub_self, ← Nat.div_mul_self_eq_mod_sub_self]
  refine congrArg (· * length) (Nat.div_eq_of_lt_le hle ?_)
  rw [Nat.add_one_mul]
  exact hlt

/-- An interval whose boundaries are the multiples of a number of seconds within the day. -/
structure DividesDay (i : Interval) (length : Nat) : Prop where
  pos : 0 < length
  dvd : length ∣ 86400
  startOf : ∀ c : ClockReading, c.date.IsDay → c.second < secondsPerDay →
    i.startOf c = .ok (some { c with second := c.second - c.second % length, nano := 0 })
  oneStepAfter : ∀ c later : ClockReading, c.addSeconds? length = some later →
    i.oneStepAfter c = .ok (some later)

/-- A tile of the day is as long as the parts of the day. -/
theorem DividesDay.exists_tile {length : Nat} (h : i.DividesDay length) (hc : c.IsNear) :
    ∃ boundary next, i.Tile boundary next next ∧
      boundary.toInstant.second = c.toInstant.second - (c.second % length : Nat) ∧
      next.toInstant.second = boundary.toInstant.second + length := by
  have hlength : length ≤ 86400 := Nat.le_of_dvd (by decide) h.dvd
  have hnear : c.second < 86400 := hc.second_lt
  have hlo := hc.le_days
  have hhi := hc.days_le
  have hless := Nat.mod_le c.second length
  obtain ⟨later, hadd, hwhole, hsum, hsecond⟩ :=
    ClockReading.addSeconds?_eq (c := { c with second := c.second - c.second % length, nano := 0 }) (n := length)
      rfl (by dsimp only; omega) (by dsimp only; omega) (Nat.lt_of_le_of_lt (Nat.sub_le _ _) hc.second_lt) (by omega)
  -- one step on from a multiple of the length is a multiple of it, also on the next day
  have hmultiple : later.second % length = 0 := by
    rw [hsecond, Nat.mod_mod_of_dvd _ h.dvd, Nat.add_mod_right]
    exact Nat.sub_mod_eq_zero_of_mod_eq (Nat.mod_mod _ _).symm
  have hlater : { later with second := later.second - later.second % length, nano := 0 } = later := by
    rw [hmultiple, Nat.sub_zero, ← hwhole.nano_eq]
  have hnext : i.startOf later = .ok (some later) := by
    rw [h.startOf later hwhole.isDay hwhole.second_lt, hlater]
  have hwithin := mod_multiple_add_le h.dvd hnear
  have hstart : (ClockReading.toInstant { c with second := c.second - c.second % length, nano := 0 }).second
      = c.toInstant.second - (c.second % length : Nat) := by
    rw [ClockReading.second_toInstant, ClockReading.second_toInstant]
    dsimp only
    omega
  have hlatersecond := ClockReading.second_toInstant later
  have hcsecond := ClockReading.second_toInstant c
  have hlaterless : later.second < 86400 := hwhole.second_lt
  refine ⟨{ c with second := c.second - c.second % length, nano := 0 }, later,
    ⟨⟨⟨hc.isDay, ?_, Nat.lt_of_le_of_lt (Nat.sub_le _ _) hc.second_lt, rfl⟩, by dsimp only; omega,
        by dsimp only; omega⟩,
      ⟨hwhole, by omega, by omega⟩, ⟨hwhole, by omega, by omega⟩, fun c' hdate hlt hle hbefore => ?_,
      h.oneStepAfter _ _ hadd, hnext, hnext⟩, hstart, hsum⟩
  · rw [← Date.ofDays_days hc.isDay]
    exact Date.inRange_ofDays (by omega) (by omega)
  · rw [hstart, ClockReading.second_toInstant c', hcsecond] at hle
    rw [ClockReading.second_toInstant c'] at hbefore
    unfold secondsPerDay at hlt
    -- a tile does not reach into the next day
    have hsame : c'.date = c.date := by
      rw [← Date.ofDays_days hdate, ← Date.ofDays_days hc.isDay]
      exact congrArg Date.ofDays (by omega)
    rw [hsame] at hle hbefore
    have hmultiple : c'.second - c'.second % length = c.second - c.second % length :=
      mod_multiple_eq (by omega) (by omega)
    rw [h.startOf c' hdate hlt, hsame, hmultiple]

theorem DividesDay.hasTile {length : Nat} (h : i.DividesDay length) (hc : c.IsNear) : i.HasTile c := by
  have hrest : c.second % length < length := Nat.mod_lt _ h.pos
  obtain ⟨boundary, next, htile, hboundary, hnext⟩ := h.exists_tile hc
  exact ⟨boundary, next, next, htile, by omega, by omega⟩

theorem dividesDay_seconds (hpos : 0 < k) (hdvd : k ∣ 60) : (every .second k).DividesDay k := by
  have hle : k ≤ 60 := Nat.le_of_dvd (by decide) hdvd
  refine ⟨hpos, Nat.dvd_trans hdvd (by decide), ?_, ?_⟩
  · intro c _ _
    have hsecond : c.second - c.secondOfMinute + (c.secondOfMinute - c.secondOfMinute % k)
        = c.second - c.second % k := by
      have hrest : c.second % 60 % k = c.second % k := Nat.mod_mod_of_dvd _ hdvd
      have hless : c.second % k ≤ c.second % 60 := hrest ▸ Nat.mod_le _ _
      unfold ClockReading.secondOfMinute
      omega
    show (align _ c.secondOfMinute).bind _ = _
    rw [align_every _ hpos (by omega), ← hsecond]
    rfl
  · intro c later hadd
    show (orFault (c.addSeconds? ((every .second k).step * 1 : Nat))).bind _ = _
    rw [step_every _ hpos, Nat.mul_one, hadd]
    rfl

theorem dividesDay_minutes (hpos : 0 < k) (hdvd : k ∣ 60) : (every .minute k).DividesDay (60 * k) := by
  have hle : k ≤ 60 := Nat.le_of_dvd (by decide) hdvd
  refine ⟨by omega, Nat.dvd_trans (Nat.mul_dvd_mul_left 60 hdvd) (by decide), ?_, ?_⟩
  · intro c _ _
    have hsecond : c.hour * 3600 + (c.minute - c.minute % k) * 60 = c.second - c.second % (60 * k) := by
      have hrest : c.second / 60 % 60 % k = c.second / 60 % k := Nat.mod_mod_of_dvd _ hdvd
      have hless : c.second / 60 % k ≤ c.second / 60 % 60 := hrest ▸ Nat.mod_le _ _
      have hsplit : c.second % (60 * k) = c.second % 60 + 60 * (c.second / 60 % k) := Nat.mod_mul
      unfold ClockReading.hour ClockReading.minute
      omega
    show (align _ c.minute).bind _ = _
    rw [align_every _ hpos (by omega), ← hsecond]
    rfl
  · intro c later hadd
    show (orFault (c.addSeconds? ((every .minute k).step * 60 : Nat))).bind _ = _
    rw [step_every _ hpos, Nat.mul_comm, hadd]
    rfl

theorem dividesDay_hours (hpos : 0 < k) (hdvd : k ∣ 24) : (every .hour k).DividesDay (3600 * k) := by
  have hle : k ≤ 24 := Nat.le_of_dvd (by decide) hdvd
  refine ⟨by omega, Nat.dvd_trans (Nat.mul_dvd_mul_left 3600 hdvd) (by decide), ?_, ?_⟩
  · intro c _ _
    have hsecond : (c.hour - c.hour % k) * 3600 = c.second - c.second % (3600 * k) := by
      have hless : c.second / 3600 % k ≤ c.second / 3600 := Nat.mod_le _ _
      have hsplit : c.second % (3600 * k) = c.second % 3600 + 3600 * (c.second / 3600 % k) := Nat.mod_mul
      unfold ClockReading.hour
      omega
    show (align _ c.hour).bind _ = _
    rw [align_every _ hpos (by omega), ← hsecond]
    rfl
  · intro c later hadd
    show (orFault (c.addSeconds? ((every .hour k).step * 3600 : Nat))).bind _ = _
    rw [step_every _ hpos, Nat.mul_comm, hadd]
    rfl

theorem startOf_days (hpos : 0 < k) (hlt : k < 0x100000000) (c : ClockReading) :
    (every .day k).startOf c
      = .ok (some (.startOf { c.date with day := c.date.day - 1 - (c.date.day - 1) % k + 1 })) := by
  show (align _ (c.date.day - 1)).bind _ = _
  rw [align_every _ hpos hlt]
  rfl

theorem oneStepAfter_days (hpos : 0 < k) {later : ClockReading}
    (hadd : c.addSeconds? (k * 86400 : Nat) = some later) :
    (every .day k).oneStepAfter c = .ok (some later) := by
  show (orFault (c.addSeconds? ((every .day k).step * 86400 : Nat))).bind _ = _
  rw [step_every _ hpos, hadd]
  rfl

theorem dividesDay_day : (every .day 1).DividesDay 86400 := by
  refine ⟨by decide, Nat.dvd_refl _, ?_, fun c later hadd => oneStepAfter_days (k := 1) (by decide) hadd⟩
  intro c hdate hsecond
  have hday : c.date.day - 1 - (c.date.day - 1) % 1 + 1 = c.date.day := by
    have := hdate.day_pos
    omega
  have hrest : c.second - c.second % 86400 = 0 := by
    have hlt : c.second < 86400 := hsecond
    rw [Nat.mod_eq_of_lt hlt, Nat.sub_self]
  rw [hrest]
  refine (startOf_days (k := 1) (by decide) (by decide) c).trans ?_
  rw [hday]
  rfl

/-! ## Days across the ends of months and years -/

theorem startOf_week (c : ClockReading) (hlo : -95000000 ≤ c.date.days) (hhi : c.date.days ≤ 95000000)
    (hweek : -95000000 ≤ c.date.days - c.date.weekday) :
    (every .week 1).startOf c = .ok (some (.startOf (Date.ofDays (c.date.days - c.date.weekday)))) := by
  have hrange : (Date.ofDays (c.date.days + -(c.date.weekday : Int))).inRange = true :=
    Date.inRange_ofDays (by omega) (by omega)
  show (orFault (c.date.addDays? (-c.date.weekday))).bind _ = _
  unfold Date.addDays?
  dsimp only
  rw [if_pos hrange]
  rfl

/-- Weeks start on Sundays. -/
theorem hasTile_week (hc : c.IsNear) : (every .week 1).HasTile c := by
  have hlo := hc.le_days
  have hhi := hc.days_le
  have hsecond := hc.second_lt
  unfold secondsPerDay at hsecond
  have hweekday : ∀ date : Date, (date.weekday : Int) = (date.days + 4) % 7 := by
    intro date
    unfold Date.weekday
    omega
  have hc' := hweekday c.date
  obtain ⟨hday, hdays⟩ := Date.ofDays_spec (c.date.days - c.date.weekday)
  generalize Date.ofDays (c.date.days - c.date.weekday) = sunday at hday hdays
  obtain ⟨hnextday, hnextdays⟩ := Date.ofDays_spec (sunday.days + 7)
  have hadd : (ClockReading.startOf sunday).addSeconds? (7 * 86400 : Nat)
      = some (.startOf (Date.ofDays (sunday.days + 7))) :=
    ClockReading.addSeconds?_startOf (n := 7) (by omega) (by omega)
  generalize Date.ofDays (sunday.days + 7) = next at hnextday hnextdays hadd
  have hnext : (every .week 1).startOf (.startOf next) = .ok (some (.startOf next)) := by
    -- a week after a Sunday it is Sunday
    have hweekday' : next.weekday = 0 := by
      have := hweekday next
      omega
    rw [startOf_week (.startOf next) (by show -95000000 ≤ next.days; omega)
      (by show next.days ≤ 95000000; omega) (by show -95000000 ≤ next.days - next.weekday; omega)]
    show Except.ok (some (ClockReading.startOf (Date.ofDays (next.days - next.weekday)))) = _
    rw [hweekday', Int.natCast_zero, Int.sub_zero, Date.ofDays_days hnextday]
  have hinner := ClockReading.isInner_startOf hnextday (by omega) (by omega)
  refine ⟨.startOf sunday, .startOf next, .startOf next,
    ⟨ClockReading.isInner_startOf hday (by omega) (by omega), hinner, hinner, fun c' hdate hlt hle hbefore => ?_, ?_,
      hnext, hnext⟩, ?_, ?_⟩
  · rw [ClockReading.second_startOf, ClockReading.second_toInstant] at hle hbefore
    unfold secondsPerDay at hlt
    have hsame : c'.date.days - c'.date.weekday = sunday.days := by
      have := hweekday c'.date
      omega
    rw [startOf_week c' (by omega) (by omega) (by omega), hsame, Date.ofDays_days hday]
  · show (orFault (ClockReading.addSeconds? _ (7 * 86400 : Nat))).bind _ = _
    rw [hadd]
    rfl
  · rw [ClockReading.second_startOf, ClockReading.second_toInstant]
    omega
  · rw [ClockReading.second_startOf, ClockReading.second_toInstant]
    omega

/-- The date that starts a pair of days. -/
def pairStart (date : Date) : Date := { date with day := date.day - 1 - (date.day - 1) % 2 + 1 }

theorem pairStart_spec {date : Date} (h : date.IsDay) :
    (pairStart date).IsDay ∧ (pairStart date).days = date.days - ((date.day - 1) % 2 : Nat) := by
  have hpos := h.day_pos
  have hle := h.day_le
  unfold pairStart
  refine ⟨⟨h.month_pos, h.month_le, by dsimp only; omega, by dsimp only; omega⟩, ?_⟩
  unfold Date.days Date.ordinal
  dsimp only
  omega

/-- The day after the first of a month is its second. -/
theorem day_eq_two {date later : Date} (h : date.IsDay) (hlater : later.IsDay) (hfirst : date.day = 1)
    (hdays : later.days = date.days + 1) : later.day = 2 := by
  have hlength := (monthLength_pos date.year date.month).1
  have hsecond : ({ date with day := 2 } : Date).IsDay :=
    ⟨h.month_pos, h.month_le, by dsimp only; omega, by dsimp only; omega⟩
  have hseconddays : ({ date with day := 2 } : Date).days = date.days + 1 := by
    unfold Date.days Date.ordinal
    dsimp only
    omega
  have hsame : later = { date with day := 2 } := by
    rw [← Date.ofDays_days hlater, ← Date.ofDays_days hsecond, hdays, hseconddays]
  rw [hsame]

/-- The day after one that is not the last of its month is the next of that month. -/
theorem eq_of_days_succ {date later : Date} (h : date.IsDay) (hlater : later.IsDay) (hday : 1 < later.day)
    (hdays : later.days = date.days + 1) : date = { later with day := later.day - 1 } := by
  obtain ⟨hpred, hpreddays⟩ := hlater.days_pred hday
  rw [← Date.ofDays_days h, ← Date.ofDays_days hpred, hpreddays, hdays, Int.add_sub_cancel]

/-- The days from the start of a pair to the start of the next, which may be the second of a pair that a month cuts
off, start at the first. -/
theorem pairStart_eq {date date' later : Date} (h : date.IsDay) (h' : date'.IsDay) (hlater : later.IsDay)
    (hodd : date.day % 2 = 1) (hdays : later.days = date.days + 2) (hle : date.days ≤ date'.days)
    (hlt : date'.days < (pairStart later).days) : pairStart date' = date := by
  rw [(pairStart_spec hlater).2] at hlt
  by_cases hsame : date'.days = date.days
  · have heq : date' = date := by
      rw [← Date.ofDays_days h', ← Date.ofDays_days h, hsame]
    have hstart : date.day - 1 - (date.day - 1) % 2 + 1 = date.day := by omega
    unfold pairStart
    rw [heq, hstart]
  · have hsucc : date'.days = date.days + 1 := by omega
    by_cases hfirst : date'.day = 1
    · -- after the first of a month its second does not start a pair
      have htwo := day_eq_two h' hlater hfirst (by omega)
      omega
    · have hpos := h'.day_pos
      have heq := eq_of_days_succ h h' (by omega) hsucc
      have hday : date.day = date'.day - 1 := congrArg Date.day heq
      have hstart : date'.day - 1 - (date'.day - 1) % 2 + 1 = date'.day - 1 := by omega
      unfold pairStart
      rw [hstart, ← heq]

/-- Every second day of a month starts a pair of days, and so does the first of the next month. -/
theorem hasTile_two_days (hc : c.IsNear) : (every .day 2).HasTile c := by
  have hlo := hc.le_days
  have hhi := hc.days_le
  have hsecond := hc.second_lt
  unfold secondsPerDay at hsecond
  have hstart : ∀ c : ClockReading, (every .day 2).startOf c = .ok (some (.startOf (pairStart c.date))) :=
    startOf_days (k := 2) (by decide) (by decide)
  have hodd : (pairStart c.date).day % 2 = 1 := by
    show (c.date.day - 1 - (c.date.day - 1) % 2 + 1) % 2 = 1
    omega
  obtain ⟨hday, hdays⟩ := pairStart_spec hc.isDay
  generalize pairStart c.date = date at hodd hday hdays
  have hadd : (ClockReading.startOf date).addSeconds? (2 * 86400 : Nat)
      = some (.startOf (Date.ofDays (date.days + 2))) :=
    ClockReading.addSeconds?_startOf (n := 2) (by omega) (by omega)
  obtain ⟨hlaterday, hlaterdays⟩ := Date.ofDays_spec (date.days + 2)
  generalize Date.ofDays (date.days + 2) = later at hlaterday hlaterdays hadd
  obtain ⟨hnextday, hnextdays⟩ := pairStart_spec hlaterday
  have hnext : pairStart (pairStart later) = pairStart later := by
    have hagain : ∀ day : Nat, (day - 1 - (day - 1) % 2 + 1) - 1 - ((day - 1 - (day - 1) % 2 + 1) - 1) % 2 + 1
        = day - 1 - (day - 1) % 2 + 1 := by omega
    unfold pairStart
    dsimp only
    rw [hagain]
  -- if the reading is on the second day of a pair, the day after it starts a pair or a month
  have hsecondday : (c.date.day - 1) % 2 = 1 → (later.day - 1) % 2 = 0 := by
    intro hsecondday
    by_cases hfirst : later.day ≤ 1
    · omega
    · have heq := eq_of_days_succ hc.isDay hlaterday (by omega) (by omega)
      have hpred : c.date.day = later.day - 1 := congrArg Date.day heq
      omega
  refine ⟨.startOf date, .startOf later, .startOf (pairStart later),
    ⟨ClockReading.isInner_startOf hday (by omega) (by omega),
      ClockReading.isInner_startOf hlaterday (by omega) (by omega),
      ClockReading.isInner_startOf hnextday (by omega) (by omega), fun c' hdate hlt hle hbefore => ?_,
      oneStepAfter_days (k := 2) (by decide) hadd, hstart _, ?_⟩, ?_, ?_⟩
  · rw [ClockReading.second_startOf, ClockReading.second_toInstant] at hle hbefore
    unfold secondsPerDay at hlt
    rw [hstart, pairStart_eq hday hdate hlaterday hodd hlaterdays (by omega) (by omega)]
  · rw [hstart]
    show Except.ok (some (ClockReading.startOf (pairStart (pairStart later)))) = _
    rw [hnext]
  · rw [ClockReading.second_startOf, ClockReading.second_toInstant]
    omega
  · rw [ClockReading.second_startOf, ClockReading.second_toInstant]
    omega

/-! ## Months and years -/

/-- An interval whose boundaries are the multiples of a number of months. -/
structure CountsMonths (i : Interval) (months : Nat) : Prop where
  pos : 0 < months
  le : months ≤ 2892000
  startOf : ∀ c : ClockReading, c.date.IsDay → -3140000 ≤ c.date.monthIndex - c.date.monthIndex % months →
    c.date.monthIndex - c.date.monthIndex % months ≤ 3140000 →
    i.startOf c = .ok (some (.startOf (.ofMonth (c.date.monthIndex - c.date.monthIndex % months))))
  oneStepAfter : ∀ date later : Date, date.addMonths? months = some later →
    i.oneStepAfter (.startOf date) = .ok (some (.startOf later))

theorem isInner_ofMonth {m : Int} (hlo : -3050000 ≤ m) (hhi : m ≤ 3070000) :
    (ClockReading.startOf (.ofMonth m)).IsInner := by
  obtain ⟨hbefore, hafter⟩ := (Date.isDay_ofMonth m).days_bounds
  have hyear : (Date.ofMonth m).year = m / 12 := rfl
  rw [hyear] at hbefore hafter
  unfold daysBeforeYear epochDays at hbefore hafter
  dsimp only at hbefore hafter
  exact ClockReading.isInner_startOf (Date.isDay_ofMonth m) (by omega) (by omega)

theorem CountsMonths.hasTile {months : Nat} (h : i.CountsMonths months) (hc : c.IsNear) : i.HasTile c := by
  have hpos := h.pos
  have hle := h.le
  obtain ⟨hlo, hhi⟩ := hc.isDay.monthIndex_bounds hc.le_days hc.days_le
  have hsecond := hc.second_lt
  unfold secondsPerDay at hsecond
  have hrest : 0 ≤ c.date.monthIndex % months := Int.emod_nonneg _ (by omega)
  have hrest' : c.date.monthIndex % months < months := Int.emod_lt_of_pos _ (by omega)
  have hdvd : (months : Int) ∣ c.date.monthIndex - c.date.monthIndex % months := Int.dvd_self_sub_emod
  have hbefore := Date.days_ofMonth_le (m := c.date.monthIndex - c.date.monthIndex % months) hc.isDay (by omega)
  have hafter := hc.isDay.days_lt_of_monthIndex_lt
    (Date.isDay_ofMonth (c.date.monthIndex - c.date.monthIndex % months + months))
    (by rw [Date.monthIndex_ofMonth]; omega)
  generalize hfirst : c.date.monthIndex - c.date.monthIndex % months = first at hdvd hbefore hafter
  have hadd := Date.addMonths?_ofMonth (m := first) (n := months) (by omega) (by omega)
  -- what lies in the months of the tile starts at the first of them
  have hstart : ∀ (m : Int) (c' : ClockReading), (months : Int) ∣ m → -3140000 ≤ m → m ≤ 3140000 → c'.date.IsDay →
      m ≤ c'.date.monthIndex → c'.date.monthIndex < m + months → i.startOf c' = .ok (some (.startOf (.ofMonth m))) := by
    intro m c' hm hmlo hmhi hdate hle' hlt'
    have hindex : c'.date.monthIndex - c'.date.monthIndex % months = m := by
      obtain ⟨q, rfl⟩ := hm
      have hsplit : c'.date.monthIndex = c'.date.monthIndex - months * q + months * q := by omega
      rw [hsplit, Int.add_mul_emod_self_left, Int.emod_eq_of_lt (by omega) (by omega)]
      omega
    rw [h.startOf c' hdate (by omega) (by omega), hindex]
  have hnext : i.startOf (.startOf (.ofMonth (first + months)))
      = .ok (some (.startOf (.ofMonth (first + months)))) := by
    have hindex := Date.monthIndex_ofMonth (first + months)
    exact hstart _ (.startOf (.ofMonth (first + months))) (Int.dvd_add hdvd (Int.dvd_refl _)) (by omega) (by omega)
      (Date.isDay_ofMonth _) (by show _ ≤ (Date.ofMonth _).monthIndex; omega)
      (by show (Date.ofMonth _).monthIndex < _; omega)
  have hinner := isInner_ofMonth (m := first + months) (by omega) (by omega)
  refine ⟨.startOf (.ofMonth first), .startOf (.ofMonth (first + months)), .startOf (.ofMonth (first + months)),
    ⟨isInner_ofMonth (by omega) (by omega), hinner, hinner, fun c' hdate hlt hle' hbefore' => ?_,
      h.oneStepAfter _ _ hadd, hnext, hnext⟩, ?_, ?_⟩
  · rw [ClockReading.second_startOf, ClockReading.second_toInstant] at hle' hbefore'
    unfold secondsPerDay at hlt
    refine hstart first c' hdvd (by omega) (by omega) hdate ?_ ?_
    · refine Int.not_lt.mp fun hnot => ?_
      have := hdate.days_lt_of_monthIndex_lt (Date.isDay_ofMonth first) (by rw [Date.monthIndex_ofMonth]; omega)
      omega
    · refine Int.not_le.mp fun hnot => ?_
      have := Date.days_ofMonth_le (m := first + months) hdate (by omega)
      omega
  · rw [ClockReading.second_startOf, ClockReading.second_toInstant]
    omega
  · rw [ClockReading.second_startOf, ClockReading.second_toInstant]
    omega

theorem countsMonths_months (hpos : 0 < k) (hdvd : k ∣ 12) : (every .month k).CountsMonths k := by
  have hle : k ≤ 12 := Nat.le_of_dvd (by decide) hdvd
  refine ⟨hpos, by omega, ?_, ?_⟩
  · intro c hdate _ _
    have hmonth := hdate.month_pos
    have hmonth' := hdate.month_le
    have hrest : c.date.monthIndex % k = ((c.date.month - 1) % k : Nat) := by
      obtain ⟨q, hq⟩ := hdvd
      have hyear : 12 * c.date.year = k * (q * c.date.year) := by
        rw [← Int.mul_assoc]
        exact congrArg (· * c.date.year) (by exact_mod_cast hq)
      unfold Date.monthIndex
      rw [hyear, Int.add_comm, Int.add_mul_emod_self_left]
      rfl
    have hless := Nat.mod_le (c.date.month - 1) k
    have hstart : Date.ofMonth (c.date.monthIndex - c.date.monthIndex % k)
        = { c.date with month := c.date.month - 1 - (c.date.month - 1) % k + 1, day := 1 } := by
      rw [hrest]
      unfold Date.ofMonth Date.monthIndex
      refine congr (congr (congrArg Date.mk ?_) ?_) rfl
      · omega
      · omega
    show (align _ (c.date.month - 1)).bind _ = _
    rw [align_every _ hpos (by omega), hstart]
    rfl
  · intro date later hadd
    show Except.ok ((date.addMonths? (every .month k).shortStep).map _) = _
    rw [shortStep_every _ hpos (by omega), hadd]
    rfl

theorem countsMonths_years (hpos : 0 < k) (hle : k ≤ 241000) : (every .year k).CountsMonths (12 * k) := by
  refine ⟨by omega, by omega, ?_, ?_⟩
  · intro c hdate hlo hhi
    have hmonth := hdate.month_pos
    have hmonth' := hdate.month_le
    have hstep : Int.bmod (every .year k).step 0x100000000 = k := by
      rw [step_every _ hpos]
      exact Int.bmod_eq_of_le (by omega) (by omega)
    have hsplit : c.date.monthIndex % (12 * k : Nat) = 12 * (c.date.year % k) + (c.date.month - 1 : Nat) := by
      have hrest : 0 ≤ c.date.year % k := Int.emod_nonneg _ (by omega)
      have hrest' : c.date.year % k < k := Int.emod_lt_of_pos _ (by omega)
      have hyear := Int.emod_add_mul_ediv c.date.year k
      have hindex : c.date.monthIndex
          = 12 * (c.date.year % k) + (c.date.month - 1 : Nat) + (12 * k : Nat) * (c.date.year / k) := by
        unfold Date.monthIndex
        push_cast
        rw [Int.mul_assoc]
        omega
      rw [hindex, Int.add_mul_emod_self_left]
      exact Int.emod_eq_of_lt (by omega) (by omega)
    have hfirst : c.date.monthIndex - c.date.monthIndex % (12 * k : Nat) = 12 * (c.date.year - c.date.year % k) := by
      rw [hsplit]
      unfold Date.monthIndex
      omega
    rw [hfirst] at hlo hhi ⊢
    have hparts := Date.ofParts?_ofMonth hlo hhi
    rw [Int.mul_ediv_cancel_left _ (by decide), Int.mul_emod_right] at hparts
    show (if (every .year k).shortStep = 0 then _ else _) = _
    rw [if_neg (by rw [shortStep_every _ hpos (by omega)]; omega)]
    rw [hstep]
    show Except.ok (Option.map _ (Date.ofParts? _ ((0 : Int).toNat + 1) 1)) = _
    rw [hparts]
    rfl
  · intro date later hadd
    show Except.ok ((date.addMonths? ((every .year k).shortStep * 12 % 0x100000000 : Nat)).map _) = _
    have hmonths : k * 12 % 0x100000000 = 12 * k := by omega
    rw [shortStep_every _ hpos (by omega), hmonths, hadd]
    rfl

/-! ## Usual intervals -/

/-- An interval with boundaries within every hour or at every hour. -/
def SplitsHours (i : Interval) : Prop := i.unit = .second ∨ i.unit = .minute ∨ i.unit = .hour ∧ i.step = 1

instance (i : Interval) : Decidable i.SplitsHours :=
  inferInstanceAs (Decidable (i.unit = .second ∨ i.unit = .minute ∨ i.unit = .hour ∧ i.step = 1))

theorem SplitsHours.unit_mem (h : i.SplitsHours) : i.unit ∈ [.second, .minute, .hour] := by
  rcases h with hunit | hunit | ⟨hunit, -⟩
  · rw [hunit]
    decide
  · rw [hunit]
    decide
  · rw [hunit]
    decide

/-- The usual intervals divide the day, in parts of the hour or in multiples of three hours, or they count days,
weeks, months or years. -/
theorem usual_cases {u : TimeUnit × Nat × Nat} (hu : u ∈ usual) :
    (∃ length, (every u.1 u.2.1).DividesDay length ∧
      ((every u.1 u.2.1).SplitsHours ∧ length ∣ 3600 ∨ ¬ (every u.1 u.2.1).SplitsHours ∧ 10800 ∣ length)) ∨
    (every u.1 u.2.1).unit ∈ [.day, .week, .month, .year] ∧
      ∀ c : ClockReading, c.IsNear → (every u.1 u.2.1).HasTile c := by
  unfold usual at hu
  simp only [List.mem_cons, List.not_mem_nil, or_false] at hu
  rcases hu with rfl | rfl | rfl | rfl | rfl | rfl | rfl | rfl | rfl | rfl | rfl | rfl | rfl | rfl | rfl | rfl |
    rfl | rfl
  · exact .inl ⟨_, dividesDay_seconds (k := 1) (by decide) (by decide), .inl (by decide)⟩
  · exact .inl ⟨_, dividesDay_seconds (k := 5) (by decide) (by decide), .inl (by decide)⟩
  · exact .inl ⟨_, dividesDay_seconds (k := 15) (by decide) (by decide), .inl (by decide)⟩
  · exact .inl ⟨_, dividesDay_seconds (k := 30) (by decide) (by decide), .inl (by decide)⟩
  · exact .inl ⟨_, dividesDay_minutes (k := 1) (by decide) (by decide), .inl (by decide)⟩
  · exact .inl ⟨_, dividesDay_minutes (k := 5) (by decide) (by decide), .inl (by decide)⟩
  · exact .inl ⟨_, dividesDay_minutes (k := 15) (by decide) (by decide), .inl (by decide)⟩
  · exact .inl ⟨_, dividesDay_minutes (k := 30) (by decide) (by decide), .inl (by decide)⟩
  · exact .inl ⟨_, dividesDay_hours (k := 1) (by decide) (by decide), .inl (by decide)⟩
  · exact .inl ⟨_, dividesDay_hours (k := 3) (by decide) (by decide), .inr (by decide)⟩
  · exact .inl ⟨_, dividesDay_hours (k := 6) (by decide) (by decide), .inr (by decide)⟩
  · exact .inl ⟨_, dividesDay_hours (k := 12) (by decide) (by decide), .inr (by decide)⟩
  · exact .inl ⟨_, dividesDay_day, .inr (by decide)⟩
  · exact .inr ⟨by decide, fun _ hc => hasTile_two_days hc⟩
  · exact .inr ⟨by decide, fun _ hc => hasTile_week hc⟩
  · exact .inr ⟨by decide, fun _ hc => (countsMonths_months (k := 1) (by decide) (by decide)).hasTile hc⟩
  · exact .inr ⟨by decide, fun _ hc => (countsMonths_months (k := 3) (by decide) (by decide)).hasTile hc⟩
  · exact .inr ⟨by decide, fun _ hc => (countsMonths_years (k := 1) (by decide) (by decide)).hasTile hc⟩

/-- Near the present the tiles of the usual intervals hold every reading. -/
theorem hasTile_of_mem_usual {u : TimeUnit × Nat × Nat} (hu : u ∈ usual) (hc : c.IsNear) :
    (every u.1 u.2.1).HasTile c := by
  rcases usual_cases hu with ⟨_, hdivides, -⟩ | ⟨-, htile⟩
  · exact hdivides.hasTile hc
  · exact htile c hc

end Interval

end VisualEncoding.Calendar
