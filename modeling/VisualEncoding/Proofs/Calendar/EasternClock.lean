import VisualEncoding.Proofs.Calendar.Stretches

/-!
# The eastern clock

The clocks of the eastern zone are put forward once a year and back once a year, both far from its ends. The readings
in between mean the instants at which the clocks show them (`Zone.occurs_of_means`). A reading after what the clocks
show means a later instant (`Zone.lt_sub_of_lt`). One that is not after what they show means an instant that is not
later (`Zone.sub_le_of_le`), but for the hour before the clocks are put back: its readings mean those of the hour
after it (`Zone.eq_standard_of_means`).
-/

namespace VisualEncoding.Calendar.Zone

/-! ## Years -/

/-- The second at which a year starts. -/
def yearStart (year : ℤ) : ℤ := (daysBeforeYear year - epochDays) * 86400

theorem yearOf_spec (second : ℤ) : yearStart (yearOf second) ≤ second ∧ second < yearStart (yearOf second + 1) := by
  obtain ⟨hle, hlt⟩ := yearOfDay_spec (second / (86400 : ℕ) + epochDays)
  have hyear : yearOf second = Date.yearOfDay (second / (86400 : ℕ) + epochDays) := rfl
  rw [hyear]
  unfold yearStart
  omega

theorem yearStart_cases (year year' : ℤ) :
    year = year' ∨ yearStart (year + 1) ≤ yearStart year' ∨ yearStart (year' + 1) ≤ yearStart year := by
  unfold yearStart
  rcases Int.lt_trichotomy year year' with hlt | rfl | hgt
  · have := daysBeforeYear_add_le (show year + 1 ≤ year' by omega)
    omega
  · exact .inl rfl
  · have := daysBeforeYear_add_le (show year' + 1 ≤ year by omega)
    omega

/-- The changes of the clocks are far from the ends of the year and from each other. -/
theorem changes_within (year : ℤ) :
    yearStart year + 5000000 ≤ springForward year ∧ springForward year + 15000000 ≤ fallBack year ∧
      fallBack year + 4000000 ≤ yearStart (year + 1) := by
  -- the days of a year before March and before November
  have hmonths : 59 ≤ daysBeforeMonth year 3 ∧ daysBeforeMonth year 3 ≤ 60 ∧ 304 ≤ daysBeforeMonth year 11 ∧
      daysBeforeMonth year 11 ≤ 305 := by
    simp only [daysBeforeMonth, monthLength]
    cases isLeapYear year <;> decide
  have hlength : 365 ≤ yearLength year := by
    unfold yearLength
    split <;> omega
  have hnext := daysBeforeYear_succ year
  -- the first Sunday is in the first seven days of a month, the second in the next seven
  have hsunday : ∀ month n : ℕ, (daysBeforeYear year + daysBeforeMonth year month - epochDays : ℤ) + 7 * (n - 1 : ℤ)
      ≤ sunday year month n ∧ sunday year month n
      < (daysBeforeYear year + daysBeforeMonth year month - epochDays : ℤ) + 7 * (n - 1 : ℤ) + 7 := by
    intro month n
    unfold sunday Date.days Date.ordinal
    dsimp only
    omega
  have hmarch := hsunday 3 2
  have hnovember := hsunday 11 1
  unfold yearStart springForward fallBack secondsPerDay
  omega

/-! ## Offsets -/

/-- Whether the clocks are on daylight time, with the year that decides it. -/
theorem offsetAt_cases (second : ℤ) :
    ∃ year, yearStart year ≤ second ∧ second < yearStart (year + 1) ∧
      (springForward year + 18000 ≤ second ∧ second < fallBack year + 14400 ∧ eastern.offsetAt second = -14400 ∨
        (second < springForward year + 18000 ∨ fallBack year + 14400 ≤ second) ∧ eastern.offsetAt second = -18000) := by
  obtain ⟨hle, hlt⟩ := yearOf_spec second
  refine ⟨yearOf second, hle, hlt, ?_⟩
  unfold eastern
  dsimp only
  unfold easternStandard easternDaylight
  split
  · exact .inl (by omega)
  · exact .inr (by omega)

/-- How a reading is understood, with the year that decides it. -/
theorem offsetOfReading?_cases (reading : ℤ) :
    ∃ year, yearStart year ≤ reading ∧ reading < yearStart (year + 1) ∧
      (reading ≤ springForward year ∧ eastern.offsetOfReading? reading = some (-18000) ∨
        springForward year < reading ∧ reading < springForward year + 3600 ∧
          eastern.offsetOfReading? reading = none ∨
        springForward year + 3600 ≤ reading ∧ reading < fallBack year - 3600 ∧
          eastern.offsetOfReading? reading = some (-14400) ∨
        fallBack year - 3600 ≤ reading ∧ eastern.offsetOfReading? reading = some (-18000)) := by
  obtain ⟨hle, hlt⟩ := yearOf_spec reading
  have hchanges := changes_within (yearOf reading)
  refine ⟨yearOf reading, hle, hlt, ?_⟩
  unfold eastern
  dsimp only
  unfold easternStandard easternDaylight
  split
  · exact .inl ⟨by omega, rfl⟩
  · split
    · exact .inr (.inl ⟨by omega, by omega, rfl⟩)
    · split
      · exact .inr (.inr (.inl ⟨by omega, by omega, rfl⟩))
      · exact .inr (.inr (.inr ⟨by omega, rfl⟩))

/-! ## Clocks and readings

What the clocks show and what a reading means are decided by the years that they lie in: in one year, or in one year
and a later or an earlier one. -/

variable {second reading offset year : ℤ}

theorem offsetAt_bounds (second : ℤ) : -18000 ≤ eastern.offsetAt second ∧ eastern.offsetAt second ≤ -14400 := by
  obtain ⟨year, -, -, hcases⟩ := offsetAt_cases second
  omega

theorem offsetAt_of_daylight (hle : springForward year + 18000 ≤ second) (hlt : second < fallBack year + 14400) :
    eastern.offsetAt second = -14400 := by
  obtain ⟨year', hstart, hend, hcases⟩ := offsetAt_cases second
  have hchanges := changes_within year
  have hchanges' := changes_within year'
  rcases yearStart_cases year year' with rfl | hyears
  · omega
  · omega

/-- Clocks never show a reading that is skipped. -/
theorem not_skipped (second year : ℤ) :
    second + eastern.offsetAt second < springForward year ∨
      springForward year + 3600 ≤ second + eastern.offsetAt second := by
  obtain ⟨year', hstart, hend, hcases⟩ := offsetAt_cases second
  have hchanges := changes_within year
  have hchanges' := changes_within year'
  rcases yearStart_cases year year' with rfl | hyears
  · omega
  · omega

theorem exists_means (reading : ℤ) (h : ∀ year, reading ≤ springForward year ∨ springForward year + 3600 ≤ reading) :
    ∃ offset, eastern.Means reading offset := by
  obtain ⟨year, -, -, hcases⟩ := offsetOfReading?_cases reading
  have hkept := h year
  rcases hcases with ⟨-, hoffset⟩ | hskipped | ⟨-, -, hoffset⟩ | ⟨-, hoffset⟩
  · exact ⟨_, hoffset, by decide, by decide⟩
  · omega
  · exact ⟨_, hoffset, by decide, by decide⟩
  · exact ⟨_, hoffset, by decide, by decide⟩

theorem means_cases (h : eastern.Means reading offset) :
    ∃ year, yearStart year ≤ reading ∧ reading < yearStart (year + 1) ∧
      (reading ≤ springForward year ∧ offset = -18000 ∨
        springForward year + 3600 ≤ reading ∧ reading < fallBack year - 3600 ∧ offset = -14400 ∨
        fallBack year - 3600 ≤ reading ∧ offset = -18000) := by
  obtain ⟨year, hstart, hend, hcases⟩ := offsetOfReading?_cases reading
  refine ⟨year, hstart, hend, ?_⟩
  rcases hcases with ⟨hle, hoffset⟩ | ⟨-, -, hoffset⟩ | ⟨hle, hlt, hoffset⟩ | ⟨hle, hoffset⟩
  · exact .inl ⟨hle, Option.some.inj (h.offsetOfReading?.symm.trans hoffset)⟩
  · rw [h.offsetOfReading?] at hoffset
    nomatch hoffset
  · exact .inr (.inl ⟨hle, hlt, Option.some.inj (h.offsetOfReading?.symm.trans hoffset)⟩)
  · exact .inr (.inr ⟨hle, Option.some.inj (h.offsetOfReading?.symm.trans hoffset)⟩)

/-- The reading at which the clocks are put forward means the instant at which they are, and so does the reading an
hour later. -/
theorem sub_eq_of_springForward (h : eastern.Means reading offset)
    (hreading : reading = springForward year ∨ reading = springForward year + 3600) :
    reading - offset = springForward year + 18000 := by
  obtain ⟨year', hstart, hend, hcases⟩ := means_cases h
  have hchanges := changes_within year
  have hchanges' := changes_within year'
  rcases yearStart_cases year year' with rfl | hyears
  · omega
  · omega

/-- All other readings are shown at the instants that they mean. -/
theorem occurs_of_means (h : eastern.Means reading offset) (hne : ∀ year, reading ≠ springForward year) :
    eastern.Occurs reading offset := by
  refine ⟨h, ?_⟩
  obtain ⟨year, hstart, hend, hcases⟩ := means_cases h
  obtain ⟨year', hstart', hend', hcases'⟩ := offsetAt_cases (reading - offset)
  have hchanges := changes_within year
  have hchanges' := changes_within year'
  have hne := hne year
  rcases yearStart_cases year year' with rfl | hyears
  · omega
  · omega

/-- In the hour before the clocks are put back readings mean those of the hour after it. -/
theorem eq_standard_of_means (h : eastern.Means reading offset) (hle : fallBack year - 3600 ≤ reading)
    (hlt : reading < fallBack year) : offset = -18000 := by
  obtain ⟨year', hstart, hend, hcases⟩ := means_cases h
  have hchanges := changes_within year
  have hchanges' := changes_within year'
  rcases yearStart_cases year year' with rfl | hyears
  · omega
  · omega

/-- A reading after what the clocks show means a later instant. -/
theorem lt_sub_of_lt (h : eastern.Means reading offset) (hlt : second + eastern.offsetAt second < reading) :
    second < reading - offset := by
  obtain ⟨year, hstart, hend, hcases⟩ := means_cases h
  obtain ⟨year', hstart', hend', hcases'⟩ := offsetAt_cases second
  have hchanges := changes_within year
  have hchanges' := changes_within year'
  rcases yearStart_cases year year' with rfl | hyears
  · omega
  · omega

/-- A reading that is not after what the clocks show means an instant that is not later, unless it is one of the hour
before the clocks are put back, and that at an instant in that hour. -/
theorem sub_le_of_le (h : eastern.Means reading offset) (hle : reading ≤ second + eastern.offsetAt second)
    (hnot : ∀ year, ¬ (fallBack year - 3600 ≤ reading ∧ reading < fallBack year ∧ second < fallBack year + 14400)) :
    reading - offset ≤ second := by
  obtain ⟨year, hstart, hend, hcases⟩ := means_cases h
  obtain ⟨year', hstart', hend', hcases'⟩ := offsetAt_cases second
  have hchanges := changes_within year
  have hchanges' := changes_within year'
  have hnot := hnot year
  rcases yearStart_cases year year' with rfl | hyears
  · omega
  · omega

end VisualEncoding.Calendar.Zone
