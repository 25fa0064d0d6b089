import VisualEncoding.Calendar.Descriptor
import VisualEncoding.Proofs.Json.Records

/-!
# Date descriptors in JSON

A descriptor is restored part by part: numbers in their range, the month by its number or its name, and whether
the parts are read off a clock at the prime meridian (`DateSpec.roundTrips`). An array that lists the parts is
written as an object.
-/

namespace VisualEncoding.Calendar

open Json (RecordField Record)

theorem MonthSpec.roundTrips : Json.RoundTrips MonthSpec.read MonthSpec.toJson := by
  intro j month hj h
  rcases Json.readUnion_eq_ok h with h | h
  · obtain ⟨n, hn, rfl⟩ := Outcome.map_eq_ok_iff.mp h
    exact Json.readUnion_of_ok (congrArg (Except.map number) (Json.roundTrips_word j n hj hn))
  · rcases Json.readUnion_eq_ok h with h | h
    · obtain ⟨s, -, rfl⟩ := Outcome.map_eq_ok_iff.mp h
      rfl
    · exact absurd h Json.readUnion_nil

namespace DateSpec

/-- The parts of a descriptor. -/
def fields : List (RecordField DateSpec) :=
  let word := Json.readWord
  let count (n : Nat) : Json := .int n
  [.optional "year" Json.readShort .int (·.year) fun d x => { d with year := x },
   .optional "quarter" word count (·.quarter) fun d x => { d with quarter := x },
   .optional "month" MonthSpec.read MonthSpec.toJson (·.month) fun d x => { d with month := x },
   .optional "date" word count (·.date) fun d x => { d with date := x },
   .optional "hours" word count (·.hours) fun d x => { d with hours := x },
   .optional "minutes" word count (·.minutes) fun d x => { d with minutes := x },
   .optional "seconds" word count (·.seconds) fun d x => { d with seconds := x },
   .optional "milliseconds" word count (·.milliseconds) fun d x => { d with milliseconds := x },
   .optional "utc" Json.readBool .bool (·.utc) fun d x => { d with utc := x }]

/-- A descriptor as a record of its parts. -/
def record : Record DateSpec where
  start := {}
  take := take
  fields := fields
  take_field := by
    intro f hf
    fin_cases hf <;> intro _ _ <;> rfl
  take_other := by
    intro name hname d j d' h
    unfold take at h
    split at h
    case h_10 => cases h; rfl
    all_goals exact absurd (by simp [fields, RecordField.optional]) hname
  get_start := by
    intro f hf
    fin_cases hf <;> rfl
  get_set := by
    intro f hf
    fin_cases hf <;> exact fun _ _ => rfl
  independent := by
    simp [fields, RecordField.optional, RecordField.independent_iff]

theorem toJson_eq : toJson = record.toJson := by
  funext d
  simp only [toJson, Record.toJson, Record.toMembers, record, fields, List.flatMap_cons, List.flatMap_nil,
    List.append_nil, List.append_assoc]
  rfl

theorem fields_roundTrip : ∀ f ∈ record.fields, f.RoundTrips := by
  have hword {name : String} {get : DateSpec → Option Nat} {set : DateSpec → Option Nat → DateSpec} :
      (RecordField.optional name Json.readWord (fun n : Nat => .int n) get set).RoundTrips :=
    RecordField.optional_roundTrips Json.refusesNull_word Json.roundTrips_word
  simp only [record, fields, List.forall_mem_cons]
  exact ⟨RecordField.optional_roundTrips nofun Json.roundTrips_short, hword,
    RecordField.optional_roundTrips nofun MonthSpec.roundTrips, hword, hword, hword, hword, hword,
    RecordField.optional_roundTrips Json.refusesNull_bool Json.roundTrips_bool, nofun⟩

theorem eq_of_fields {d d' : DateSpec} (h : ∀ f ∈ record.fields, f.get d' = f.get d) : d' = d := by
  simp only [record, fields, List.forall_mem_cons] at h
  obtain ⟨hyear, hquarter, hmonth, hdate, hhours, hminutes, hseconds, hmilliseconds, hutc, -⟩ := h
  cases d
  cases d'
  exact (mk.injEq ..).mpr ⟨hyear, hquarter, hmonth, hdate, hhours, hminutes, hseconds, hmilliseconds, hutc⟩

/-- What is read as a descriptor is restored. -/
theorem roundTrips : Json.RoundTrips read toJson := by
  rw [toJson_eq]
  exact record.roundTrips fields_roundTrip (fun _ _ => eq_of_fields) _ _

end DateSpec

end VisualEncoding.Calendar
