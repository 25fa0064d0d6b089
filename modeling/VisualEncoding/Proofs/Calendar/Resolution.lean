import VisualEncoding.Calendar.Descriptor
import VisualEncoding.Proofs.Calendar.Parts
import VisualEncoding.Proofs.Outcome

/-!
# What a descriptor resolves to

A descriptor names a month in one of four ways (`DateSpec.NamesMonth`), which never disagree, as no month starts with
the letters of another. With the other parts, or what stands for them, the month names a time (`DateSpec.NamesTime`) or
none. Read off a clock at the prime meridian,

> `DateSpec.resolve_exact`: a descriptor resolves if and only if it names a time; a clock shows the parts of the instant
> that it resolves to, and of two descriptors the one with the lesser parts resolves to the earlier instant.
-/

namespace VisualEncoding.Calendar

variable {month month' : Nat} {t t' : Instant} {c c' : ClockReading}

/-! ## Months -/

/-- A number from 1 to 12 means a month, and so does a name that starts with its three letters in any case. -/
def MonthSpec.Means : MonthSpec → Nat → Prop
  | .number n, month => month = n ∧ 1 ≤ n ∧ n ≤ 12
  | .name s, month => ∃ i letters, month = i + 1 ∧ monthPrefixes[i]? = some letters ∧
      letters.toList <+: (Text.lower s).toList

/-- No text starts with the letters of two months. -/
theorem monthPrefixes_unique {i j : Nat} {letters letters' : String} {text : List Char}
    (hi : monthPrefixes[i]? = some letters) (hj : monthPrefixes[j]? = some letters')
    (h : letters.toList <+: text) (h' : letters'.toList <+: text) : i = j := by
  have hlength : ∀ p ∈ monthPrefixes, p.toList.length = 3 := by decide
  have hnodup : monthPrefixes.Nodup := by decide
  have hsame : letters.toList.length = letters'.toList.length := by
    rw [hlength _ (List.mem_of_getElem? hi), hlength _ (List.mem_of_getElem? hj)]
  -- prefixes of one text that are equally long are the same
  have heq : letters = letters' := String.toList_inj.mp
    ((List.prefix_of_prefix_length_le h h' hsame.le).eq_of_length hsame)
  rw [← heq, ← hi] at hj
  exact (List.getElem?_inj (List.getElem?_eq_some_iff.mp hi).1 hnodup).mp hj.symm

theorem MonthSpec.toMonth_eq_ok_iff {m : MonthSpec} : m.toMonth = .ok month ↔ m.Means month := by
  cases m with
  | number n =>
    unfold toMonth Means
    dsimp only
    split
    next h => exact ⟨fun hok => ⟨(Except.ok.inj hok).symm, h⟩, fun hmeans => congrArg Except.ok hmeans.1.symm⟩
    next h => exact iff_of_false nofun fun hmeans => h hmeans.2
  | name s =>
    unfold toMonth Means
    dsimp only
    cases hfind : monthPrefixes.findIdx? fun p => (Text.lower s).startsWith p with
    | none =>
      refine iff_of_false nofun ?_
      rintro ⟨i, letters, -, hi, hletters⟩
      have hnot := List.findIdx?_eq_none_iff.mp hfind letters (List.mem_of_getElem? hi)
      rw [String.startsWith_string_iff.mpr hletters] at hnot
      nomatch hnot
    | some j =>
      obtain ⟨hlt, hstarts, -⟩ := List.findIdx?_eq_some_iff_getElem.mp hfind
      have hj := List.getElem?_eq_getElem hlt
      have hletters := String.startsWith_string_iff.mp hstarts
      constructor
      · intro hok
        exact ⟨j, _, (Except.ok.inj hok).symm, hj, hletters⟩
      · rintro ⟨i, letters, rfl, hi, hprefix⟩
        rw [monthPrefixes_unique hi hj hprefix hletters]

namespace DateSpec

variable {spec spec' : DateSpec}

/-- The month that a descriptor names: by its month, or else as the first of its quarter, or else January. -/
def NamesMonth (spec : DateSpec) (month : Nat) : Prop :=
  match spec.month, spec.quarter with
  | some m, _ => m.Means month
  | none, some q => 1 ≤ q ∧ q ≤ 4 ∧ month = 3 * (q - 1) + 1
  | none, none => month = 1

theorem monthNumber_eq_ok_iff : spec.monthNumber = .ok month ↔ spec.NamesMonth month := by
  unfold monthNumber NamesMonth
  cases spec.month with
  | some m => exact MonthSpec.toMonth_eq_ok_iff
  | none =>
    cases spec.quarter with
    | some q =>
      dsimp only
      split
      next h =>
        rw [Except.ok.injEq]
        omega
      next h => exact iff_of_false nofun fun hnames => h ⟨hnames.1, hnames.2.1⟩
    | none =>
      dsimp only
      rw [Except.ok.injEq]
      omega

/-! ## Times -/

/-- The day that a descriptor names in a month. -/
def day (spec : DateSpec) (month : Nat) : Date :=
  { year := spec.year.getD 2012, month, day := spec.date.getD 1 }

/-- A descriptor names a day of the calendar in a month, and a time of that day. Only the last second of a minute may
last two seconds. -/
structure NamesTime (spec : DateSpec) (month : Nat) : Prop where
  isDay : (spec.day month).IsDay
  inRange : leastYear ≤ (spec.day month).year ∧ (spec.day month).year ≤ greatestYear
  hours_lt : spec.hours.getD 0 < 24
  minutes_lt : spec.minutes.getD 0 < 60
  seconds_lt : spec.seconds.getD 0 < 60
  milliseconds_lt : spec.milliseconds.getD 0 < 1000 ∨ spec.seconds.getD 0 = 59 ∧ spec.milliseconds.getD 0 < 2000

/-- A clock shows the parts of a descriptor, and what stands for the parts that are left out. -/
structure ShownBy (spec : DateSpec) (month : Nat) (c : ClockReading) : Prop where
  date : c.date = spec.day month
  hour : c.hour = spec.hours.getD 0
  minute : c.minute = spec.minutes.getD 0
  second : c.secondOfMinute = spec.seconds.getD 0
  nano : c.nano = spec.milliseconds.getD 0 * nanosPerMilli

/-- A descriptor has a clock reading in a month if and only if it names a time in it. -/
theorem exists_clock?_iff : (∃ c, spec.clock? month = some c) ↔ spec.NamesTime month := by
  unfold clock?
  constructor
  · rintro ⟨c, hc⟩
    obtain ⟨date, hdate, hclock⟩ := Option.bind_eq_some_iff.mp hc
    obtain ⟨hday, hrange⟩ := Date.ofParts?_spec hdate
    obtain rfl := Date.eq_of_ofParts? hdate
    obtain ⟨hhours, hminutes, hseconds, hnano, hlong⟩ := ClockReading.exists_ofParts?_iff.mp ⟨c, hclock⟩
    unfold nanosPerMilli nanosPerSecond at hnano hlong
    exact ⟨hday, of_decide_eq_true hrange, hhours, hminutes, hseconds, by omega⟩
  · intro h
    have hmilliseconds := h.milliseconds_lt
    have hdate := Date.ofParts?_of_isDay h.isDay (decide_eq_true h.inRange)
    obtain ⟨c, hclock⟩ : ∃ c, ClockReading.ofParts? (spec.day month) (spec.hours.getD 0) (spec.minutes.getD 0)
        (spec.seconds.getD 0) (spec.milliseconds.getD 0 * nanosPerMilli) = some c := by
      refine ClockReading.exists_ofParts?_iff.mpr ⟨h.hours_lt, h.minutes_lt, h.seconds_lt, ?_, ?_⟩
      · unfold nanosPerMilli nanosPerSecond
        omega
      · unfold nanosPerMilli nanosPerSecond
        omega
    exact ⟨c, Option.bind_eq_some_iff.mpr ⟨_, hdate, hclock⟩⟩

/-- The clock reading of a descriptor is a reading of the calendar that shows the parts of the descriptor. -/
theorem clock?_spec (h : spec.clock? month = some c) :
    c.date.IsDay ∧ c.date.inRange = true ∧ c.IsTime ∧ spec.ShownBy month c := by
  obtain ⟨date, hdate, hclock⟩ := Option.bind_eq_some_iff.mp h
  obtain ⟨hday, hrange⟩ := Date.ofParts?_spec hdate
  obtain ⟨hdateEq, hhour, hminute, hsecond, hnano⟩ := ClockReading.ofParts?_spec hclock
  obtain ⟨htime, -⟩ := Timestamp.isTime_of_ofParts? hclock
  rw [hdateEq]
  exact ⟨hday, hrange, htime, hdateEq.trans (Date.eq_of_ofParts? hdate), hhour, hminute, hsecond, hnano⟩

/-! ## Instants -/

theorem resolve_eq_ok_iff :
    spec.resolve false = .ok t ↔ ∃ month c, spec.NamesMonth month ∧ spec.clock? month = some c ∧ c.toInstant = t := by
  -- the instant of the clock reading of a month, or none
  have hmeans : ∀ month, (spec.clock? month).bind (·.instantIn? (spec.zone false))
      = (spec.clock? month).map (·.toInstant) := by
    intro month
    cases hclock : spec.clock? month with
    | none => rfl
    | some c =>
      obtain ⟨hday, hrange, htime, -⟩ := clock?_spec hclock
      exact ClockReading.instantIn?_utc hday hrange htime
  unfold resolve
  simp only [Outcome.bind_eq_ok_iff, monthNumber_eq_ok_iff, hmeans]
  constructor
  · rintro ⟨month, hmonth, h⟩
    cases hclock : spec.clock? month with
    | none =>
      rw [hclock] at h
      nomatch h
    | some c =>
      rw [hclock] at h
      exact ⟨month, c, hmonth, hclock, Except.ok.inj h⟩
  · rintro ⟨month, c, hmonth, hclock, rfl⟩
    refine ⟨month, hmonth, ?_⟩
    rw [hclock]
    rfl

/-- The parts of a descriptor in a month from the year down to the milliseconds, with what stands for the parts that
are left out. -/
def parts (spec : DateSpec) (month : Nat) : List Int :=
  [(spec.day month).year, month, (spec.day month).day, spec.hours.getD 0, spec.minutes.getD 0, spec.seconds.getD 0,
    spec.milliseconds.getD 0]

theorem ShownBy.parts_lt (h : spec.ShownBy month c) (h' : spec'.ShownBy month' c')
    (hlt : spec.parts month < spec'.parts month') : c.parts < c'.parts := by
  -- the lists differ in the last entry only, which counts milliseconds here and nanoseconds there
  unfold parts at hlt
  unfold ClockReading.parts
  rw [h.date, h.hour, h.minute, h.second, h.nano, h'.date, h'.hour, h'.minute, h'.second, h'.nano]
  simp only [List.cons_lt_cons_iff, List.lt_irrefl, and_false, or_false, day] at hlt ⊢
  unfold nanosPerMilli
  omega

/-- What a descriptor resolves to is the instant of its clock reading in the month that it names. -/
theorem exists_clock?_of_resolve (h : spec.resolve false = .ok t) (hmonth : spec.NamesMonth month) :
    ∃ c, spec.clock? month = some c ∧ c.toInstant = t := by
  obtain ⟨named, c, hnamed, hclock, ht⟩ := resolve_eq_ok_iff.mp h
  have hsame := (monthNumber_eq_ok_iff.mpr hnamed).symm.trans (monthNumber_eq_ok_iff.mpr hmonth)
  cases hsame
  exact ⟨c, hclock, ht⟩

/-- **Descriptors resolve exactly and in order.** A descriptor resolves at the prime meridian if and only if it names a
month and a time in it. A clock there shows the parts of the instant. If of two descriptors one has the lesser parts,
compared from the year down, it resolves to the earlier instant, also in milliseconds if it has less than a thousand of
them. -/
theorem resolve_exact (spec : DateSpec) :
    ((∃ t, spec.resolve false = .ok t) ↔ ∃ month, spec.NamesMonth month ∧ spec.NamesTime month) ∧
      (∀ t month, spec.resolve false = .ok t → spec.NamesMonth month → spec.ShownBy month t.clock) ∧
      ∀ (spec' : DateSpec) (t t' : Instant) (month month' : Nat), spec.resolve false = .ok t →
        spec'.resolve false = .ok t' → spec.NamesMonth month → spec'.NamesMonth month' →
        spec.parts month < spec'.parts month' →
        t.before t' = true ∧ (spec.milliseconds.getD 0 < 1000 → t.millis < t'.millis) := by
  refine ⟨⟨?_, ?_⟩, ?_, ?_⟩
  · rintro ⟨t, h⟩
    obtain ⟨month, c, hmonth, hclock, -⟩ := resolve_eq_ok_iff.mp h
    exact ⟨month, hmonth, exists_clock?_iff.mp ⟨c, hclock⟩⟩
  · rintro ⟨month, hmonth, htime⟩
    obtain ⟨c, hclock⟩ := exists_clock?_iff.mpr htime
    exact ⟨c.toInstant, resolve_eq_ok_iff.mpr ⟨month, c, hmonth, hclock, rfl⟩⟩
  · intro t month h hmonth
    obtain ⟨c, hclock, rfl⟩ := exists_clock?_of_resolve h hmonth
    obtain ⟨hday, -, htime, hshown⟩ := clock?_spec hclock
    rw [ClockReading.clock_toInstant hday htime.second_lt]
    exact hshown
  · intro spec' t t' month month' h h' hmonth hmonth' hlt
    obtain ⟨c, hclock, rfl⟩ := exists_clock?_of_resolve h hmonth
    obtain ⟨c', hclock', rfl⟩ := exists_clock?_of_resolve h' hmonth'
    obtain ⟨hday, -, htime, hshown⟩ := clock?_spec hclock
    obtain ⟨-, -, -, hshown'⟩ := clock?_spec hclock'
    have hbefore := ClockReading.before_of_parts_lt hday htime.second_lt (hshown.parts_lt hshown' hlt)
    exact ⟨hbefore, Instant.millis_lt_of_before hbefore hshown.nano hshown'.nano⟩

/-- The last millisecond of a leap year before the year 0, by the name of its month. -/
def lastOfYear : DateSpec :=
  { year := some (-4), month := some (.name "DECEMBER"), date := some 31, hours := some 23, minutes := some 59,
    seconds := some 59, milliseconds := some 999 }

/-- The start of the year after it, by its quarter. -/
def firstOfNextYear : DateSpec := { year := some (-3), quarter := some 1 }

/-- A name in capital letters and a quarter on both sides of the end of a leap year. -/
theorem resolve_exact_turnOfYear :
    lastOfYear.NamesMonth 12 ∧ lastOfYear.NamesTime 12 ∧ firstOfNextYear.NamesMonth 1 ∧ firstOfNextYear.NamesTime 1 ∧
      lastOfYear.parts 12 < firstOfNextYear.parts 1 ∧
      ∃ t t', lastOfYear.resolve false = .ok t ∧ firstOfNextYear.resolve false = .ok t' ∧
        lastOfYear.ShownBy 12 t.clock ∧ t.before t' = true ∧ t.millis < t'.millis := by
  have hmonth : lastOfYear.NamesMonth 12 := ⟨11, "dec", rfl, rfl, by decide +kernel⟩
  have hmonth' : firstOfNextYear.NamesMonth 1 := ⟨by decide, by decide, rfl⟩
  have htime : lastOfYear.NamesTime 12 :=
    ⟨⟨by decide, by decide, by decide, by decide⟩, by decide, by decide, by decide, by decide, by decide⟩
  have htime' : firstOfNextYear.NamesTime 1 :=
    ⟨⟨by decide, by decide, by decide, by decide⟩, by decide, by decide, by decide, by decide, by decide⟩
  have hparts : lastOfYear.parts 12 < firstOfNextYear.parts 1 := by decide
  obtain ⟨hresolves, hshown, horder⟩ := resolve_exact lastOfYear
  obtain ⟨hresolves', -, -⟩ := resolve_exact firstOfNextYear
  obtain ⟨t, ht⟩ := hresolves.mpr ⟨12, hmonth, htime⟩
  obtain ⟨t', ht'⟩ := hresolves'.mpr ⟨1, hmonth', htime'⟩
  obtain ⟨hbefore, hmillis⟩ := horder firstOfNextYear t t' 12 1 ht ht' hmonth hmonth' hparts
  exact ⟨hmonth, htime, hmonth', htime', hparts, t, t', ht, ht', hshown t 12 ht hmonth, hbefore, hmillis (by decide)⟩

end DateSpec

end VisualEncoding.Calendar
