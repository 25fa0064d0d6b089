import VisualEncoding.Proofs.Calendar.Parts
import VisualEncoding.Proofs.Json.WrittenNumbers
import VisualEncoding.Proofs.Value.Documents

/-!
# Values are restored, and instants are known by their keys

A value that was read is restored from its own tree: whatever spelling of an instant was read, its written form is read
as the same instant. So it is from its own text, unless it is a number of more than fifteen digits: the reader rounds
twice, and may so miss the double that the digits were written for (`not_restored_from_text`). The written form is also
the key of an instant, so that

> `Value.restored_and_known_by_key`: values are restored, each instant that can be made of parts is read from its key,
> and two of them are the same if and only if their keys are.
-/

namespace VisualEncoding.Value

open Calendar (Instant)

variable {j : Json} {v : Value Float} {t : Instant}

/-- The tree of a value has no members to put in order. -/
theorem canonical_toJson (v : Value Float) : v.toJson.canonical = v.toJson := by
  cases v with
  | number x =>
    rw [toJson, Json.ofFloat]
    split <;> rfl
  | _ => rfl

/-- A tree that is read as a value is neither an array nor an object. -/
theorem wellFormed_of_read (hj : j.HoldsNumerals) (h : read j = .ok v) : j.WellFormed := by
  cases hj with
  | null => exact .null
  | bool b => exact .bool b
  | int hn => exact .int hn
  | float hx => exact .float hx
  | string s => exact .string s
  | array _ => nomatch h
  | object _ => nomatch h

theorem read_toJson (hj : j.HoldsNumerals) (h : read j = .ok v) : read v.toJson = .ok v := by
  have hrestored := roundTrips j v (wellFormed_of_read hj h) h
  unfold Json.Restores at hrestored
  rwa [canonical_toJson] at hrestored

/-- No other instants are read than those that are made of parts. -/
theorem isMade_of_read (h : read j = .ok (.dateTime t)) : t.IsMade := by
  cases j with
  | string s =>
    cases htime : Calendar.Timestamp.read? s with
    | some found =>
      rw [read_of_timestamp htime] at h
      cases h
      exact (Calendar.Timestamp.isReadable_of_read? htime).isMade
    | none =>
      rw [read_of_text htime] at h
      nomatch h
  | _ => nomatch h

/-- The key of an instant is a text that is read as the instant. -/
theorem read_key (h : t.IsMade) : read (.string (dateTime t : Value Float).key) = .ok (.dateTime t) :=
  read_of_timestamp (Calendar.Timestamp.read?_write h.isReadable)

/-- What a text is read as. -/
def IsText (text : String) (v : Value Float) : Prop := ∃ j, Json.parse text = .ok j ∧ read j = .ok v

/-- A double that is nearest to a number of at most fifteen digits, with at most twenty-one places. -/
def HasFifteenDigits (x : Float) : Prop :=
  ∃ (negative : Bool) (d n : ℕ), d < 10 ^ 15 ∧ n ≤ 21 ∧ x = (Decimal.Numeral.finite negative d (-n)).toFloat

/-- A tree other than that of a number is read from its text as it is. -/
theorem parse_compact_toJson (hv : ∀ x, v = .number x → HasFifteenDigits x ∧ x.isFinite = true) :
    Json.parse v.toJson.compact = .ok v.toJson := by
  cases v with
  | null => exact Json.parse_null
  | boolean b => exact Json.parse_bool b
  | number x =>
    obtain ⟨⟨negative, d, n, hd, hn, rfl⟩, hfinite⟩ := hv x rfl
    rw [toJson, Json.ofFloat_of_isFinite hfinite]
    exact Json.parse_compact_toFloat negative hd hn
  | dateTime t => exact Json.parse_quotedText _
  | string s => exact Json.parse_quotedText s

theorem isFinite_of_read {x : Float} (hj : j.HoldsNumerals) (h : read j = .ok (.number x)) : x.isFinite = true := by
  cases hj with
  | int hn =>
    cases h
    exact Double.isFinite_floatOfInt hn
  | float hx =>
    cases h
    exact hx
  | string s =>
    cases htime : Calendar.Timestamp.read? s with
    | some t =>
      rw [read_of_timestamp htime] at h
      nomatch h
    | none =>
      rw [read_of_text htime] at h
      nomatch h
  | null | bool | array | object => nomatch h

/-- A value that was read from a text is read from its own text again, a number if it has no more than fifteen
digits. -/
theorem isText_compact {text : String} (h : IsText text v) (hv : ∀ x, v = .number x → HasFifteenDigits x) :
    IsText v.toJson.compact v := by
  obtain ⟨j, hparse, hread⟩ := h
  have hj := Json.holdsNumerals_of_parse hparse
  have hfinite (x : Float) (hx : v = .number x) : x.isFinite = true := isFinite_of_read hj (hx ▸ hread)
  exact ⟨v.toJson, parse_compact_toJson fun x hx => ⟨hv x hx, hfinite x hx⟩, read_toJson hj hread⟩

/-- **Values are restored, and instants are known by their keys.** What is read as a value is read again from the tree
of the value, and from its text unless it is a number of more than fifteen digits; the key of an instant of the
calendar, leap seconds included, is read as the instant; and instants with one key are one instant. -/
theorem restored_and_known_by_key :
    (∀ (j : Json) (v : Value Float), j.HoldsNumerals → read j = .ok v → read v.toJson = .ok v) ∧
      (∀ (text : String) (v : Value Float), IsText text v → (∀ x, v = .number x → HasFifteenDigits x) →
        IsText v.toJson.compact v) ∧
      (∀ t : Instant, t.IsMade →
        IsText (Json.compact (.string (dateTime t : Value Float).key)) (.dateTime t)) ∧
      ∀ t t' : Instant, t.IsMade → t'.IsMade →
        ((dateTime t : Value Float).key = (dateTime t' : Value Float).key ↔ t = t') := by
  refine ⟨fun j v hj h => read_toJson hj h, fun text v h hv => isText_compact h hv,
    fun t ht => ⟨_, Json.parse_quotedText _, read_key ht⟩, fun t t' ht ht' => ⟨fun hkey => ?_, fun h => ?_⟩⟩
  · -- the key is read as either instant
    have hread := read_key ht
    rw [hkey, read_key ht'] at hread
    cases hread
    rfl
  · rw [h]

/-- Half a second after the start of a leap second, on the 29th of February of a year before the year 0. -/
def leapSecond : Instant := { second := -62288265601, nano := 1500000000 }

/-- The same fraction of the second after it. -/
def secondAfter : Instant := { second := -62288265600, nano := 500000000 }

/-- A loose spelling of the leap second, on a clock that is behind. -/
def looseLeapSecond : Json := .string "-4-2-29 18:29:60.5 -05:30"

theorem leapSecond_isMade : leapSecond.IsMade :=
  ⟨-4, 2, 29, 23, 59, 59, 1500000000, _, _, rfl, rfl, by decide⟩

theorem secondAfter_isMade : secondAfter.IsMade :=
  ⟨-4, 3, 1, 0, 0, 0, 500000000, _, _, rfl, rfl, by decide⟩

/-- A leap second is restored from a loose spelling and from its key, which is not the key of the second after it. -/
theorem restored_and_known_by_key_leapSecond :
    looseLeapSecond.HoldsNumerals ∧ read looseLeapSecond = .ok (.dateTime leapSecond) ∧ leapSecond.IsMade ∧
      secondAfter.IsMade ∧ read (dateTime leapSecond : Value Float).toJson = .ok (.dateTime leapSecond) ∧
      IsText looseLeapSecond.compact (.dateTime leapSecond) ∧
      IsText (dateTime leapSecond : Value Float).toJson.compact (.dateTime leapSecond) ∧
      IsText (Json.compact (.string (dateTime leapSecond : Value Float).key)) (.dateTime leapSecond) ∧
      (dateTime leapSecond : Value Float).key ≠ (dateTime secondAfter : Value Float).key := by
  have hread : read looseLeapSecond = .ok (.dateTime leapSecond) := read_of_timestamp (by decide +kernel)
  have htext : IsText looseLeapSecond.compact (.dateTime leapSecond) := ⟨_, Json.parse_quotedText _, hread⟩
  obtain ⟨hrestored, hwritten, hkey, hsame⟩ := restored_and_known_by_key
  refine ⟨.string _, hread, leapSecond_isMade, secondAfter_isMade, hrestored _ _ (.string _) hread, htext,
    hwritten _ _ htext nofun, hkey _ leapSecond_isMade, fun h => ?_⟩
  exact absurd ((hsame _ _ leapSecond_isMade secondAfter_isMade).mp h) (by decide)

/-! ## A number of sixteen digits -/

/-- A double that takes sixteen digits. -/
def sixteenDigits : Float := Float.ofBits 4636307127072585310

/-- The double below it. -/
def doubleBelow : Float := Float.ofBits 4636307127072585309

/-- The digits of a text with two digits before the point. -/
theorem isWhole_ninetyThree : Json.IsWhole "93".toList := ⟨List.all_eq_true.mp rfl, nofun, nofun⟩

/-- **A number of sixteen digits may be lost in a text.** The double is read from some text, and its own text is read as
the double below it. -/
theorem not_restored_from_text : ¬ ∀ (text : String) (v : Value Float), IsText text v → IsText v.toJson.compact v := by
  intro h
  have hread : Json.parse "93.88699788410438" = .ok (.float sixteenDigits) :=
    Json.parse_point "93".toList "88699788410438".toList isWhole_ninetyThree (List.all_eq_true.mp rfl) nofun rfl
      (by decide +kernel)
  have hwritten : (number sixteenDigits).toJson.compact = "93.88699788410437" := by decide +kernel
  have hbelow : Json.parse "93.88699788410437" = .ok (.float doubleBelow) :=
    Json.parse_point "93".toList "88699788410437".toList isWhole_ninetyThree (List.all_eq_true.mp rfl) nofun rfl
      (by decide +kernel)
  have hdistinct : doubleBelow ≠ sixteenDigits := by decide +kernel
  obtain ⟨j, hj, hv⟩ := h "93.88699788410438" (.number sixteenDigits) ⟨_, hread, rfl⟩
  rw [hwritten, hbelow] at hj
  cases hj
  exact hdistinct (Value.number.inj (Except.ok.inj hv))

end VisualEncoding.Value
