import VisualEncoding.Calendar.Date

/-!
# Dates and days

Counting days and dates are two ways to name the same days: `Date.ofDays` and `Date.days` undo each other
(`Date.days_ofDays`, `Date.ofDays_days`). The length of a year is where its months end, so that a day of the
year lies in one of its months and a day in one of the years. Months too are counted on across years
(`Date.monthIndex`, `Date.ofMonth`), in the order of their days.
-/

namespace VisualEncoding.Calendar

variable {year year' : Int} {month month' ordinal : Nat}

/-! ## Months -/

theorem monthLength_pos (year : Int) (month : Nat) : 28 ≤ monthLength year month ∧ monthLength year month ≤ 31 := by
  unfold monthLength
  split
  · split <;> omega
  · split <;> omega

theorem daysBeforeMonth_succ (h : 1 ≤ month) :
    daysBeforeMonth year (month + 1) = daysBeforeMonth year month + monthLength year month := by
  cases month with
  | zero => omega
  | succ m => rfl

theorem daysBeforeMonth_le (h : month ≤ month') :
    daysBeforeMonth year month ≤ daysBeforeMonth year month' := by
  induction month' with
  | zero =>
    obtain rfl := Nat.le_zero.mp h
    exact Nat.le_refl _
  | succ m ih =>
    rcases Nat.eq_or_lt_of_le h with rfl | hlt
    · exact Nat.le_refl _
    · refine Nat.le_trans (ih (Nat.le_of_lt_succ hlt)) ?_
      cases m with
      | zero => exact Nat.le_refl _
      | succ m => exact Nat.le_add_right _ _

/-- A day of the year lies in one of its months. -/
theorem exists_month {last : Nat} (hlast : 1 ≤ last) (h : ordinal < daysBeforeMonth year (last + 1)) :
    ∃ month, 1 ≤ month ∧ month ≤ last ∧ daysBeforeMonth year month ≤ ordinal ∧
      ordinal < daysBeforeMonth year (month + 1) := by
  induction last with
  | zero => omega
  | succ last ih =>
    rcases Nat.lt_or_ge ordinal (daysBeforeMonth year (last + 1)) with hbefore | hafter
    · rcases Nat.eq_zero_or_pos last with rfl | hpos
      · exact absurd hbefore (Nat.not_lt_zero _)
      · obtain ⟨month, h1, h2, h3⟩ := ih hpos hbefore
        exact ⟨month, h1, by omega, h3⟩
    · exact ⟨last + 1, hlast, Nat.le_refl _, hafter, h⟩

/-- The month of a day of the year is the one that it lies in. -/
theorem monthOfOrdinal_eq (hmonth : month ≤ 12) (hlo : daysBeforeMonth year month ≤ ordinal)
    (hhi : ordinal < daysBeforeMonth year (month + 1)) : Date.monthOfOrdinal year ordinal = month := by
  have hbefore : ∀ m, decide (daysBeforeMonth year (m + 1) ≤ ordinal) = decide (m < month) := by
    intro m
    refine decide_eq_decide.mpr ⟨fun h => ?_, fun h => ?_⟩
    · refine Nat.lt_of_not_le fun hnot => ?_
      have hlater : daysBeforeMonth year (month + 1) ≤ daysBeforeMonth year (m + 1) :=
        daysBeforeMonth_le (by omega)
      omega
    · exact Nat.le_trans (daysBeforeMonth_le (show m + 1 ≤ month by omega)) hlo
  have hlength : ∀ m ≤ 12, ((List.range 12).filter fun k => decide (k < m)).length = m := by decide
  unfold Date.monthOfOrdinal
  simp only [hbefore]
  exact hlength month hmonth

/-! ## Years -/

/-- The number of days of a year. -/
def yearLength (year : Int) : Nat := if isLeapYear year then 366 else 365

theorem yearLength_le (year : Int) : yearLength year ≤ 366 := by
  unfold yearLength
  split <;> omega

theorem daysBeforeMonth_thirteen (year : Int) : daysBeforeMonth year 13 = yearLength year := by
  unfold yearLength
  simp only [daysBeforeMonth, monthLength]
  cases isLeapYear year <;> rfl

theorem daysBeforeYear_succ (year : Int) :
    daysBeforeYear (year + 1) = daysBeforeYear year + yearLength year := by
  unfold daysBeforeYear yearLength isLeapYear
  simp only [Bool.and_eq_true, Bool.or_eq_true, beq_iff_eq, bne_iff_ne]
  split <;> omega

theorem daysBeforeYear_add_le (h : year ≤ year') :
    daysBeforeYear year + 365 * (year' - year) ≤ daysBeforeYear year' := by
  unfold daysBeforeYear
  dsimp only
  omega

/-- The mean length of a year leads to the year of a day. -/
theorem yearOfDay_spec (day : Int) :
    daysBeforeYear (Date.yearOfDay day) ≤ day ∧ day < daysBeforeYear (Date.yearOfDay day + 1) := by
  unfold Date.yearOfDay
  dsimp only
  split
  next h =>
    unfold daysBeforeYear at h ⊢
    dsimp only at h ⊢
    omega
  next h =>
    split
    next h' =>
      unfold daysBeforeYear at h h' ⊢
      dsimp only at h h' ⊢
      omega
    next h' => exact ⟨Int.not_lt.mp h, Int.not_le.mp h'⟩

theorem yearOfDay_eq {day : Int} (hlo : daysBeforeYear year ≤ day) (hhi : day < daysBeforeYear (year + 1)) :
    Date.yearOfDay day = year := by
  obtain ⟨hlo', hhi'⟩ := yearOfDay_spec day
  generalize Date.yearOfDay day = found at hlo' hhi'
  rcases Int.lt_trichotomy found year with h | rfl | h
  · have := daysBeforeYear_add_le (show found + 1 ≤ year by omega)
    omega
  · rfl
  · have := daysBeforeYear_add_le (show year + 1 ≤ found by omega)
    omega

/-! ## Dates -/

namespace Date

variable {d d' : Date}

/-- There is such a day. -/
structure IsDay (d : Date) : Prop where
  month_pos : 1 ≤ d.month
  month_le : d.month ≤ 12
  day_pos : 1 ≤ d.day
  day_le : d.day ≤ monthLength d.year d.month

theorem eq_of_ofParts? {day : Nat} (h : ofParts? year month day = some d) : d = { year, month, day } := by
  unfold ofParts? at h
  split at h
  next => exact (Option.some.inj h).symm
  next => nomatch h

/-- A date made of parts is a day of the calendar. -/
theorem ofParts?_spec {day : Nat} (h : ofParts? year month day = some d) : d.IsDay ∧ d.inRange = true := by
  unfold ofParts? at h
  split at h
  next hparts =>
    cases h
    obtain ⟨hleast, hgreatest, hmonth, hmonth', hday, hday'⟩ := hparts
    exact ⟨⟨hmonth, hmonth', hday, hday'⟩, decide_eq_true ⟨hleast, hgreatest⟩⟩
  next => nomatch h

/-- A day of the calendar is a date made of its parts. -/
theorem ofParts?_of_isDay (h : d.IsDay) (hrange : d.inRange = true) : ofParts? d.year d.month d.day = some d := by
  have hyear : leastYear ≤ d.year ∧ d.year ≤ greatestYear := of_decide_eq_true hrange
  exact if_pos ⟨hyear.1, hyear.2, h.month_pos, h.month_le, h.day_pos, h.day_le⟩

theorem IsDay.ordinal_lt_month (h : d.IsDay) : d.ordinal < daysBeforeMonth d.year (d.month + 1) := by
  rw [daysBeforeMonth_succ h.month_pos]
  unfold ordinal
  have := h.day_pos
  have := h.day_le
  omega

theorem IsDay.ordinal_lt (h : d.IsDay) : d.ordinal < yearLength d.year := by
  rw [← daysBeforeMonth_thirteen]
  exact Nat.lt_of_lt_of_le h.ordinal_lt_month (daysBeforeMonth_le (by have := h.month_le; omega))

/-- Counting days back and forth leads to the same date. -/
theorem ofDays_days (h : d.IsDay) : ofDays d.days = d := by
  have hday : d.days + epochDays = daysBeforeYear d.year + d.ordinal := by
    unfold days
    omega
  have hyear : yearOfDay (daysBeforeYear d.year + d.ordinal) = d.year := by
    refine yearOfDay_eq (by omega) ?_
    rw [daysBeforeYear_succ]
    have := h.ordinal_lt
    omega
  have hordinal : (daysBeforeYear d.year + d.ordinal - daysBeforeYear d.year).toNat = d.ordinal := by omega
  have hmonth : monthOfOrdinal d.year d.ordinal = d.month :=
    monthOfOrdinal_eq h.month_le (Nat.le_add_right _ _) h.ordinal_lt_month
  have hdate : d.ordinal - daysBeforeMonth d.year d.month + 1 = d.day := by
    have := h.day_pos
    unfold ordinal
    omega
  unfold ofDays
  dsimp only
  rw [hday, hyear, hordinal, hmonth, hdate]

/-- Every day has a date, which leads back to it. -/
theorem ofDays_spec (n : Int) : (ofDays n).IsDay ∧ (ofDays n).days = n := by
  obtain ⟨hlo, hhi⟩ := yearOfDay_spec (n + epochDays)
  unfold ofDays
  dsimp only
  generalize yearOfDay (n + epochDays) = year at hlo hhi
  rw [daysBeforeYear_succ] at hhi
  generalize hordinal : (n + epochDays - daysBeforeYear year).toNat = ordinal
  have hordinal_lt : ordinal < daysBeforeMonth year (12 + 1) := by
    rw [daysBeforeMonth_thirteen]
    omega
  obtain ⟨month, hpos, hle, hbefore, hafter⟩ := exists_month (by decide) hordinal_lt
  rw [monthOfOrdinal_eq hle hbefore hafter]
  rw [daysBeforeMonth_succ hpos] at hafter
  refine ⟨⟨hpos, hle, by dsimp only; omega, by dsimp only; omega⟩, ?_⟩
  unfold days Date.ordinal
  dsimp only
  omega

theorem days_ofDays (n : Int) : (ofDays n).days = n := (ofDays_spec n).2

theorem isDay_ofDays (n : Int) : (ofDays n).IsDay := (ofDays_spec n).1

/-! ## Dates in order -/

/-- A day lies in its year. -/
theorem IsDay.days_bounds (h : d.IsDay) :
    daysBeforeYear d.year ≤ d.days + epochDays ∧ d.days + epochDays < daysBeforeYear d.year + 366 := by
  have hordinal := h.ordinal_lt
  have hlength := yearLength_le d.year
  unfold days
  omega

/-- Days of an earlier year come before. -/
theorem IsDay.days_lt_of_year_lt (h : d.IsDay) (hyear : d.year < d'.year) : d.days < d'.days := by
  have hlt := h.ordinal_lt
  have hnext := daysBeforeYear_succ d.year
  have hlater := daysBeforeYear_add_le (show d.year + 1 ≤ d'.year by omega)
  unfold days
  omega

/-- Days of an earlier month of the year come before. -/
theorem IsDay.days_lt_of_month_lt (h : d.IsDay) (hyear : d.year = d'.year) (hmonth : d.month < d'.month) :
    d.days < d'.days := by
  have hlt := h.ordinal_lt_month
  have hnext : daysBeforeMonth d.year (d.month + 1) ≤ daysBeforeMonth d.year d'.month :=
    daysBeforeMonth_le hmonth
  have hlater : daysBeforeMonth d'.year d'.month ≤ d'.ordinal := Nat.le_add_right _ _
  unfold days
  rw [← hyear] at *
  omega

/-- Earlier days of the month come before. -/
theorem IsDay.days_lt_of_day_lt (h : d.IsDay) (hyear : d.year = d'.year) (hmonth : d.month = d'.month)
    (hday : d.day < d'.day) : d.days < d'.days := by
  have hpos := h.day_pos
  unfold days ordinal
  rw [hyear, hmonth]
  omega

/-- The day before a date that does not start its month. -/
theorem IsDay.days_pred (h : d.IsDay) (hday : 1 < d.day) :
    ({ d with day := d.day - 1 } : Date).IsDay ∧ ({ d with day := d.day - 1 } : Date).days = d.days - 1 := by
  have hle := h.day_le
  refine ⟨⟨h.month_pos, h.month_le, by dsimp only; omega, by dsimp only; omega⟩, ?_⟩
  unfold days ordinal
  dsimp only
  omega

/-- The calendar reaches far beyond the present. -/
theorem inRange_ofDays {n : Int} (hlo : -95000000 ≤ n) (hhi : n ≤ 95000000) :
    (ofDays n).inRange = true := by
  obtain ⟨hle, hlt⟩ := yearOfDay_spec (n + epochDays)
  unfold inRange
  refine decide_eq_true ?_
  show leastYear ≤ yearOfDay (n + epochDays) ∧ yearOfDay (n + epochDays) ≤ greatestYear
  generalize yearOfDay (n + epochDays) = year at hle hlt
  unfold daysBeforeYear epochDays at *
  unfold leastYear greatestYear
  dsimp only at hle hlt
  omega

/-! ## Months counted on -/

variable {m : Int}

/-- The number of months from the first of the year 0. -/
def monthIndex (d : Date) : Int := 12 * d.year + (d.month - 1 : Nat)

/-- The first day of a month, counted from the first of the year 0. -/
def ofMonth (m : Int) : Date := { year := m / 12, month := (m % 12).toNat + 1, day := 1 }

theorem isDay_ofMonth (m : Int) : (ofMonth m).IsDay := by
  have hlength := (monthLength_pos (m / 12) ((m % 12).toNat + 1)).1
  refine ⟨Nat.succ_pos _, ?_, Nat.le_refl _, ?_⟩
  · show (m % 12).toNat + 1 ≤ 12
    omega
  · show 1 ≤ monthLength (m / 12) ((m % 12).toNat + 1)
    omega

theorem monthIndex_ofMonth (m : Int) : (ofMonth m).monthIndex = m := by
  unfold monthIndex ofMonth
  dsimp only
  omega

theorem inRange_ofMonth (hlo : -3140000 ≤ m) (hhi : m ≤ 3140000) : (ofMonth m).inRange = true := by
  refine decide_eq_true ?_
  show leastYear ≤ m / 12 ∧ m / 12 ≤ greatestYear
  unfold leastYear greatestYear
  omega

theorem ofParts?_ofMonth (hlo : -3140000 ≤ m) (hhi : m ≤ 3140000) :
    ofParts? (m / 12) ((m % 12).toNat + 1) 1 = some (ofMonth m) := by
  have hday := isDay_ofMonth m
  have hrange : leastYear ≤ m / 12 ∧ m / 12 ≤ greatestYear := of_decide_eq_true (inRange_ofMonth hlo hhi)
  unfold ofParts?
  rw [if_pos ⟨hrange.1, hrange.2, hday.month_pos, hday.month_le, hday.day_pos, hday.day_le⟩]
  rfl

theorem addMonths?_ofMonth {n : Int} (hlo : -3140000 ≤ m + n) (hhi : m + n ≤ 3140000) :
    (ofMonth m).addMonths? n = some (ofMonth (m + n)) := by
  have hindex : 12 * (ofMonth m).year + ((ofMonth m).month - 1 : Nat) + n = m + n := by
    have := monthIndex_ofMonth m
    unfold monthIndex at this
    omega
  have hlength := (monthLength_pos ((m + n) / 12) (((m + n) % 12).toNat + 1)).1
  have hfirst : min (ofMonth m).day (monthLength ((m + n) / 12) (((m + n) % 12).toNat + 1)) = 1 := by
    show min 1 _ = 1
    omega
  unfold addMonths?
  dsimp only
  rw [hindex, hfirst]
  exact ofParts?_ofMonth hlo hhi

/-- Days of an earlier month come before. -/
theorem IsDay.days_lt_of_monthIndex_lt (h : d.IsDay) (h' : d'.IsDay) (hlt : d.monthIndex < d'.monthIndex) :
    d.days < d'.days := by
  have hpos := h.month_pos
  have hle := h.month_le
  have hpos' := h'.month_pos
  have hle' := h'.month_le
  unfold monthIndex at hlt
  by_cases hyear : d.year < d'.year
  · exact h.days_lt_of_year_lt hyear
  · exact h.days_lt_of_month_lt (by omega) (by omega)

/-- The first day of a month is not after the days of the month and of later ones. -/
theorem days_ofMonth_le (h : d.IsDay) (hle : m ≤ d.monthIndex) : (ofMonth m).days ≤ d.days := by
  rcases Int.lt_or_eq_of_le hle with hlt | rfl
  · refine Int.le_of_lt ((isDay_ofMonth m).days_lt_of_monthIndex_lt h ?_)
    rw [monthIndex_ofMonth]
    exact hlt
  · have hpos := h.month_pos
    have hmonth := h.month_le
    have hfirst : ofMonth d.monthIndex = { d with day := 1 } := by
      unfold ofMonth monthIndex
      refine congr (congr (congrArg Date.mk ?_) ?_) rfl
      · omega
      · omega
    rw [hfirst]
    unfold days ordinal
    dsimp only
    omega

/-- Near the present the year is moderate, also counted in months. -/
theorem IsDay.monthIndex_bounds (h : d.IsDay) (hlo : -4400000 ≤ d.days) (hhi : d.days ≤ 4400000) :
    -120960 ≤ d.monthIndex ∧ d.monthIndex ≤ 168251 := by
  have hpos := h.month_pos
  have hmonth := h.month_le
  obtain ⟨hbefore, hafter⟩ := h.days_bounds
  unfold daysBeforeYear epochDays at hbefore hafter
  dsimp only at hbefore hafter
  unfold monthIndex
  omega

end Date

end VisualEncoding.Calendar
