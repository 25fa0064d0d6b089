import Mathlib
import VisualEncoding.Calendar.Timestamp
import VisualEncoding.Proofs.Calendar.Days

/-!
# Written timestamps are read back

`Timestamp.read?` takes many spellings, offsets and leap seconds among them. What it finds is an instant of the
calendar whose fraction goes beyond a second only in the last second of a minute (`Instant.IsReadable`): offsets
are whole minutes, so a leap second stays at the end of its minute. Such an instant has one written form, which is
read back as it is.

> `Timestamp.isReadable_of_read?`: what is read is readable.
> `Timestamp.read?_write`: what is readable is written as a text that is read as the same instant.
-/

namespace VisualEncoding.Calendar

/-- An instant of the calendar; only the last second of a minute may last two seconds. -/
structure Instant.IsReadable (t : Instant) : Prop where
  inRange : t.inRange = true
  nano_lt : t.nano < 2 * nanosPerSecond
  leap : nanosPerSecond ≤ t.nano → t.second % 60 = 59

/-- A time of day; only the last second of a minute may last two seconds. -/
structure ClockReading.IsTime (c : ClockReading) : Prop where
  second_lt : c.second < secondsPerDay
  nano_lt : c.nano < 2 * nanosPerSecond
  leap : nanosPerSecond ≤ c.nano → c.second % 60 = 59

theorem Instant.toInstant_clock (t : Instant) : t.clock.toInstant = t := by
  obtain ⟨second, nano⟩ := t
  unfold clock ClockReading.toInstant
  dsimp only
  rw [Date.days_ofDays]
  unfold secondsPerDay
  congr 1
  omega

theorem Instant.IsReadable.isTime_clock {t : Instant} (h : t.IsReadable) : t.clock.IsTime := by
  refine ⟨?_, h.nano_lt, fun hleap => ?_⟩
  · show (t.second % secondsPerDay).toNat < secondsPerDay
    unfold secondsPerDay
    omega
  · have hlast := h.leap hleap
    show (t.second % secondsPerDay).toNat % 60 = 59
    unfold secondsPerDay
    omega

namespace Timestamp

/-! ## Digits -/

section Digits

variable {width n : Nat} {ds : List Char}

theorem isDigit_of_mem_padded {c : Char} (h : c ∈ padded width n) : c.isDigit = true := by
  rcases List.mem_append.mp h with h | h
  · rw [(List.mem_replicate.mp h).2]
    rfl
  · exact Nat.isDigit_of_mem_toDigits (by decide) (by decide) h

theorem digitsValue_padded (width n : Nat) : Decimal.digitsValue (padded width n) = n := by
  show Nat.ofDigitChars 10 (List.replicate (width - (Nat.toDigits 10 n).length) '0' ++ Nat.toDigits 10 n) 0 = n
  rw [Nat.ofDigitChars_append, Nat.ofDigitChars_replicate_zero, Nat.mul_zero, Nat.ofDigitChars_ten_toDigits]

theorem length_padded (hpos : 0 < width) (h : n < 10 ^ width) : (padded width n).length = width := by
  have hdigits : (Nat.toDigits 10 n).length ≤ width := (Nat.length_toDigits_le_iff (by decide) hpos).mpr h
  unfold padded
  rw [List.length_leftpad]
  omega

theorem padded_ne_nil (width n : Nat) : padded width n ≠ [] := by
  intro h
  exact Nat.toDigits_ne_nil (List.append_eq_nil_iff.mp h).2

/-- A number that takes all the room it may take. -/
theorem digits?_append {least : Nat} (hdigits : ∀ c ∈ ds, c.isDigit = true) (hleast : least ≤ ds.length)
    (rest : List Char) :
    digits? least ds.length (ds ++ rest) = some (Decimal.digitsValue ds, rest) := by
  unfold digits?
  dsimp only
  rw [List.take_left, List.takeWhile_eq_self_iff.mpr hdigits, if_neg (Nat.not_lt.mpr hleast), List.drop_left]

/-- A run of digits ends at the first other character. -/
theorem takeDigits_append {c : Char} (hdigits : ∀ c ∈ ds, c.isDigit = true) (hc : c.isDigit = false)
    (rest : List Char) :
    Decimal.takeDigits (ds ++ c :: rest) = (ds, c :: rest) := by
  have hstop : ¬ c.isDigit = true := by simp [hc]
  unfold Decimal.takeDigits
  rw [List.takeWhile_append_of_pos hdigits, List.dropWhile_append_of_pos hdigits,
    List.takeWhile_cons_of_neg hstop, List.dropWhile_cons_of_neg hstop, List.append_nil]

theorem digitRun?_padded {c : Char} (hc : c.isDigit = false) (rest : List Char) :
    digitRun? (padded width n ++ c :: rest) = some (n, c :: rest) := by
  have hne : (padded width n).isEmpty = false := by
    rw [List.isEmpty_eq_false_iff]
    exact padded_ne_nil width n
  unfold digitRun?
  rw [takeDigits_append (fun _ => isDigit_of_mem_padded) hc]
  dsimp only
  rw [hne, digitsValue_padded]
  rfl

theorem isBlank_of_isDigit {c : Char} (h : c.isDigit = true) : Text.isBlank c = false := by
  obtain ⟨hlo, hhi⟩ : 48 ≤ c.toNat ∧ c.toNat ≤ 57 := Char.isDigit_iff_toNat.mp h
  unfold Text.isBlank
  simp only [Bool.or_eq_false_iff, Bool.and_eq_false_iff, beq_eq_false_iff_ne, decide_eq_false_iff_not]
  omega

/-- There are no blanks before a number. -/
theorem skipBlanks_padded (rest : List Char) : Text.skipBlanks (padded width n ++ rest) = padded width n ++ rest := by
  cases hpadded : padded width n with
  | nil => exact absurd hpadded (padded_ne_nil width n)
  | cons c cs =>
    have hdigit : c.isDigit = true := isDigit_of_mem_padded (hpadded ▸ List.mem_cons_self)
    unfold Text.skipBlanks
    rw [List.cons_append, List.dropWhile_cons_of_neg (by simp [isBlank_of_isDigit hdigit])]

/-- A field of two digits. -/
theorem field?_padded (h : n < 100) (rest : List Char) : field? (padded 2 n ++ rest) = some (n, rest) := by
  have hlength : (padded 2 n).length = 2 := length_padded (by decide) h
  unfold field?
  rw [skipBlanks_padded]
  have hread := digits?_append (fun _ => isDigit_of_mem_padded) (show 1 ≤ (padded 2 n).length by omega) rest
  rw [hlength, digitsValue_padded] at hread
  exact hread

end Digits

/-! ## What is written is read -/

theorem year?_yearText (year : Int) (rest : List Char) :
    year? (yearText year ++ '-' :: rest) = some (year, '-' :: rest) := by
  unfold yearText
  split
  next h =>
    -- four digits, neither of them a sign
    have hlength : (padded 4 year.toNat).length = 4 := length_padded (by decide) (by omega)
    have hread := digits?_append (fun _ => isDigit_of_mem_padded)
      (show 1 ≤ (padded 4 year.toNat).length by omega) ('-' :: rest)
    rw [hlength, digitsValue_padded] at hread
    unfold year?
    rw [skipBlanks_padded]
    have hhead : ∀ c cs, padded 4 year.toNat ++ '-' :: rest = c :: cs → c.isDigit = true := by
      intro c cs hcons
      cases hpadded : padded 4 year.toNat with
      | nil => exact absurd hpadded (padded_ne_nil _ _)
      | cons d ds =>
        rw [hpadded] at hcons
        obtain ⟨rfl, -⟩ := List.cons.inj hcons
        exact isDigit_of_mem_padded (hpadded ▸ List.mem_cons_self)
    split
    next cs hcons => exact absurd (hhead _ _ hcons) (by decide)
    next cs hcons => exact absurd (hhead _ _ hcons) (by decide)
    next =>
      rw [hread, Option.map_some]
      show some ((year.toNat : Int), _) = _
      rw [Int.toNat_of_nonneg h.1]
  next h =>
    split
    next hneg =>
      show (digitRun? (padded 4 year.natAbs ++ '-' :: rest)).map _ = _
      rw [digitRun?_padded (by decide), Option.map_some]
      show some (-(year.natAbs : Int), _) = _
      rw [show -(year.natAbs : Int) = year by omega]
    next hneg =>
      show (digitRun? (padded 4 year.natAbs ++ '-' :: rest)).map _ = _
      rw [digitRun?_padded (by decide), Option.map_some]
      show some ((year.natAbs : Int), _) = _
      rw [show (year.natAbs : Int) = year by omega]

theorem looseMark?_cons {c : Char} (hc : Text.isBlank c = false) (cs : List Char) :
    looseMark? c (c :: cs) = some cs := by
  unfold looseMark? Text.skipBlanks
  rw [List.dropWhile_cons_of_neg (by simp [hc])]
  exact if_pos (beq_self_eq_true c)

theorem date?_dateText {d : Date} (h : d.IsDay) (hrange : d.inRange = true) (rest : List Char) :
    date? year? field? (looseMark? '-') (dateText d ++ rest) = some (d, rest) := by
  have hmonth : d.month < 100 := Nat.lt_of_le_of_lt h.month_le (by decide)
  have hday : d.day < 100 :=
    Nat.lt_of_le_of_lt (Nat.le_trans h.day_le (monthLength_pos d.year d.month).2) (by decide)
  have hparts := Date.ofParts?_of_isDay h hrange
  have hmark := @looseMark?_cons '-' (by decide)
  unfold date? dateText
  simp only [List.append_assoc, List.cons_append, year?_yearText, hmark, field?_padded hmonth, field?_padded hday,
    hparts, Option.bind_eq_bind, Option.bind_some, Option.pure_def]

/-! ### Times -/

theorem fraction?_fractionText {nano : Nat} (h : nano < nanosPerSecond) (rest : List Char) :
    fraction? (fractionText nano ++ 'Z' :: rest) = some (nano, 'Z' :: rest) := by
  -- digits of a number of `width` places, the others being zero
  have hplaces : ∀ width n, 0 < width → width ≤ 9 → n < 10 ^ width → n * 10 ^ (9 - width) = nano →
      fraction? ('.' :: padded width n ++ 'Z' :: rest) = some (nano, 'Z' :: rest) := by
    intro width n hpos hwidth hn hnano
    have hlength : (padded width n).length = width := length_padded hpos hn
    have hne : (padded width n).isEmpty = false := by
      rw [List.isEmpty_eq_false_iff]
      exact padded_ne_nil width n
    have htake : (padded width n).take 9 = padded width n := List.take_of_length_le (by omega)
    have hsplit : Decimal.takeDigits (padded width n ++ 'Z' :: rest) = (padded width n, 'Z' :: rest) :=
      takeDigits_append (fun _ => isDigit_of_mem_padded) (by decide) rest
    unfold fraction?
    simp only [List.cons_append, hsplit, hne, htake, hlength, digitsValue_padded]
    show some (n * 10 ^ (9 - width), _) = _
    rw [hnano]
  unfold nanosPerSecond at h
  unfold fractionText
  split
  next hzero =>
    subst hzero
    rfl
  next =>
    split
    next hmillis => exact hplaces 3 _ (by decide) (by decide) (by omega) (by omega)
    next =>
      split
      next hmicros => exact hplaces 6 _ (by decide) (by decide) (by omega) (by omega)
      next => exact hplaces 9 _ (by decide) (by decide) (by omega) (by omega)

/-- The parts of a time as shown lead back to it: second 60 is the leap second after 59. -/
theorem reading?_shown {c : ClockReading} (h : c.IsTime) :
    reading? c.date c.hour c.minute c.shownSecond c.shownNano = some c := by
  obtain ⟨date, second, nano⟩ := c
  obtain ⟨hsecond, hnano, hleap⟩ := h
  unfold secondsPerDay at hsecond
  unfold nanosPerSecond at hnano hleap
  dsimp only at hsecond hnano hleap
  unfold reading? ClockReading.ofParts? ClockReading.shownSecond ClockReading.shownNano ClockReading.hour
    ClockReading.minute ClockReading.secondOfMinute nanosPerSecond
  dsimp only
  by_cases hlong : 1000000000 ≤ nano
  · have hlast := hleap hlong
    rw [if_pos (by omega), if_pos (by omega)]
    congr 2 <;> omega
  · rw [if_neg (by omega), if_pos (by omega)]
    congr 2 <;> omega

theorem time?_timeText {c : ClockReading} (h : c.IsTime) (rest : List Char) :
    time? field? (looseMark? ':') fraction? c.date (timeText c ++ 'Z' :: rest) = some (c, 'Z' :: rest) := by
  have hsecond := h.second_lt
  have hnano := h.nano_lt
  unfold secondsPerDay at hsecond
  have hhour : c.hour < 100 := by
    unfold ClockReading.hour
    omega
  have hminute : c.minute < 100 := by
    unfold ClockReading.minute
    omega
  have hshown : c.shownSecond < 100 := by
    unfold ClockReading.shownSecond ClockReading.secondOfMinute
    unfold nanosPerSecond at *
    omega
  have hfraction : c.shownNano < nanosPerSecond := Nat.mod_lt _ (by decide)
  have hmark := @looseMark?_cons ':' (by decide)
  unfold time? timeText
  simp only [List.append_assoc, List.cons_append, hmark, field?_padded hhour, field?_padded hminute,
    field?_padded hshown, fraction?_fractionText hfraction, reading?_shown h, Option.bind_eq_bind,
    Option.bind_some, Option.pure_def]

/-! ### Timestamps -/

/-- **Written timestamps are read back.** -/
theorem read?_write {t : Instant} (h : t.IsReadable) : read? (write t) = some t := by
  have hdate : ∀ rest, date? year? field? (looseMark? '-') (dateText t.clock.date ++ rest)
      = some (t.clock.date, rest) := date?_dateText (Date.isDay_ofDays (t.second / secondsPerDay)) h.inRange
  have hmark : ∀ rest, dateEnd? ('T' :: rest) = some rest := fun rest => rfl
  have htime := time?_timeText h.isTime_clock []
  have hblank : Text.skipBlanks ['Z'] = ['Z'] := by decide
  have hend : atOffset? t.clock 0 = some t := by
    unfold atOffset?
    rw [Instant.toInstant_clock]
    show (if (t.shift 0).inRange = true then some (t.shift 0) else none) = some t
    rw [show t.shift 0 = t from congrArg (Instant.mk · t.nano) (Int.add_zero _), if_pos h.inRange]
  unfold read? write
  rw [String.toList_ofList]
  simp only [List.append_assoc, List.cons_append, hdate, hmark, htime, hblank, Option.bind_eq_bind,
    Option.bind_some]
  exact hend

/-! ## What is read is readable -/

theorem isTime_of_ofParts? {date : Date} {hour minute second nano : Nat} {c : ClockReading}
    (h : ClockReading.ofParts? date hour minute second nano = some c) : c.IsTime ∧ c.date = date := by
  unfold ClockReading.ofParts? at h
  split at h
  next hparts =>
    obtain ⟨hhour, hminute, hsecond, hnano, hleap⟩ := hparts
    cases Option.some.inj h
    refine ⟨⟨?_, hnano, fun hlong => ?_⟩, rfl⟩
    · dsimp only
      unfold secondsPerDay
      omega
    · dsimp only at hlong ⊢
      omega
  next => cases h

theorem isTime_of_time? {field : Reader Nat} {mark : List Char → Option (List Char)} {fraction : Reader Nat}
    {date : Date} {cs rest : List Char} {c : ClockReading}
    (h : time? field mark fraction date cs = some (c, rest)) : c.IsTime := by
  unfold time? at h
  simp only [Option.bind_eq_bind, Option.bind_eq_some_iff] at h
  obtain ⟨_, -, _, -, _, -, _, -, _, -, _, -, shown, hread, h⟩ := h
  obtain ⟨rfl, -⟩ := Prod.mk.inj (Option.some.inj h)
  unfold reading? at hread
  split at hread
  · exact (isTime_of_ofParts? hread).1
  · exact (isTime_of_ofParts? hread).1

section Offsets

variable {separated : List Char → Option (List Char)} {cs rest : List Char} {offset : Int}

/-- Offsets are whole minutes. -/
theorem offset?_whole (h : offset? separated cs = some (offset, rest)) : offset % 60 = 0 := by
  unfold offset? at h
  simp only [Option.bind_eq_bind, Option.bind_eq_some_iff] at h
  obtain ⟨⟨west, _⟩, -, ⟨hours, _⟩, -, _, -, ⟨minutes, _⟩, -, h⟩ := h
  split at h
  next =>
    obtain ⟨hoffset, -⟩ := Prod.mk.inj (Option.some.inj h)
    dsimp only at hoffset
    cases west <;> simp at hoffset <;> omega
  next => cases h

theorem zone?_whole (h : zone? separated cs = some (offset, rest)) : offset % 60 = 0 := by
  unfold zone? at h
  split at h
  · obtain ⟨rfl, -⟩ := Prod.mk.inj (Option.some.inj h)
    rfl
  · obtain ⟨rfl, -⟩ := Prod.mk.inj (Option.some.inj h)
    rfl
  · exact offset?_whole h

end Offsets

theorem isReadable_of_atOffset? {c : ClockReading} {offset : Int} {t : Instant} (hc : c.IsTime)
    (hoffset : offset % 60 = 0) (h : atOffset? c offset = some t) : t.IsReadable := by
  unfold atOffset? at h
  dsimp only at h
  split at h
  next hrange =>
    cases Option.some.inj h
    refine ⟨hrange, hc.nano_lt, fun hlong => ?_⟩
    have hlast := hc.leap hlong
    show (c.date.days * secondsPerDay + c.second + -offset) % 60 = 59
    unfold secondsPerDay
    omega
  next => cases h

/-- What is read is readable. -/
theorem isReadable_of_read? {s : String} {t : Instant} (h : read? s = some t) : t.IsReadable := by
  unfold read? at h
  simp only [Option.bind_eq_bind, Option.bind_eq_some_iff] at h
  obtain ⟨⟨date, _⟩, -, _, -, ⟨c, rest⟩, htime, h⟩ := h
  have hc := isTime_of_time? htime
  have hend : ∀ offset : Int, ∀ rest : List Char, offset % 60 = 0 →
      (if (Text.skipBlanks rest).isEmpty then atOffset? c offset else none) = some t → t.IsReadable := by
    intro offset rest hoffset h
    split at h
    · exact isReadable_of_atOffset? hc hoffset h
    · cases h
  split at h
  · exact hend 0 _ rfl h
  · obtain ⟨⟨offset, rest⟩, hzone, h⟩ := Option.bind_eq_some_iff.mp h
    exact hend offset rest (zone?_whole hzone) h

end Timestamp
end VisualEncoding.Calendar
