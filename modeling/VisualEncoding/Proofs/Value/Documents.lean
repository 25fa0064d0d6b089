import VisualEncoding.Value.Document
import VisualEncoding.Proofs.Calendar.Timestamps
import VisualEncoding.Proofs.Json.Readers

/-!
# Values in JSON

A value is restored from what it is written as: a text that is a timestamp was read as an instant, whose written
form is read as the same instant, and a text that is none is none when it is read again.
-/

namespace VisualEncoding.Value

theorem read_of_timestamp {s : String} {t : Calendar.Instant} (h : Calendar.Timestamp.read? s = some t) :
    read (.string s) = .ok (.dateTime t) := by
  simp only [read, h]

theorem read_of_text {s : String} (h : Calendar.Timestamp.read? s = none) :
    read (.string s) = .ok (.string s) := by
  simp only [read, h]

theorem restores_number {x : Float} (h : x.isFinite = true) : Json.Restores read toJson (.number x) := by
  unfold Json.Restores
  rw [toJson, Json.ofFloat_of_isFinite h]
  rfl

/-- What is read as a value is restored. -/
theorem roundTrips : Json.RoundTrips read toJson := by
  intro j v hj h
  cases hj with
  | null =>
    cases h
    rfl
  | bool b =>
    cases h
    rfl
  | int hn =>
    cases h
    exact restores_number (Double.isFinite_floatOfInt hn)
  | float hx =>
    cases h
    exact restores_number hx
  | string s =>
    cases htime : Calendar.Timestamp.read? s with
    | some t =>
      rw [read_of_timestamp htime] at h
      cases h
      exact read_of_timestamp (Calendar.Timestamp.read?_write (Calendar.Timestamp.isReadable_of_read? htime))
    | none =>
      rw [read_of_text htime] at h
      cases h
      exact read_of_text htime
  | array _ => nomatch h
  | object _ _ => nomatch h

end VisualEncoding.Value
