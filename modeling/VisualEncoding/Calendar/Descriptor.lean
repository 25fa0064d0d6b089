import VisualEncoding.Text.Inspect
import VisualEncoding.Text.Lower
import VisualEncoding.Calendar.Zone
import VisualEncoding.Json.Reading

/-!
# Date descriptors

A descriptor names an instant by its parts. Parts that are left out stand for the start of the period
that holds them: January, the first, midnight; the year 2012 if there is none. A month wins over a
quarter.

These are the structured date descriptors of the specification, §4.5, which leaves open what a missing part
stands for. A descriptor that names no instant is a malformed config (§7).
-/

namespace VisualEncoding.Calendar

/-- A month by its number or by its English name. -/
inductive MonthSpec where
  | number (n : Nat)
  | name (s : String)
  deriving Repr, DecidableEq

/-- A date and time of day by its parts. -/
structure DateSpec where
  year : Option Int := none
  quarter : Option Nat := none
  month : Option MonthSpec := none
  date : Option Nat := none
  hours : Option Nat := none
  minutes : Option Nat := none
  seconds : Option Nat := none
  milliseconds : Option Nat := none
  /-- Whether the parts are read off a clock at the prime meridian whatever the local zone. -/
  utc : Option Bool := none
  deriving Repr, DecidableEq, Inhabited

/-- Why a descriptor names no instant. -/
inductive DateFault where
  | monthNumber (n : Nat)
  | monthName (s : String)
  | quarter (n : Nat)
  /-- There is no such day or time of day, or the local clock skips it. -/
  | noSuchTime (spec : DateSpec)
  deriving Repr, DecidableEq

/-! ## Meaning -/

/-- The first three letters of the months in lower case. -/
def monthPrefixes : List String :=
  ["jan", "feb", "mar", "apr", "may", "jun", "jul", "aug", "sep", "oct", "nov", "dec"]

/-- The number of a month. A name counts by its first three letters in any case. -/
def MonthSpec.toMonth : MonthSpec → Except DateFault Nat
  | .number n => if 1 ≤ n ∧ n ≤ 12 then .ok n else .error (.monthNumber n)
  | .name s =>
    match monthPrefixes.findIdx? fun p => (Text.lower s).startsWith p with
    | some i => .ok (i + 1)
    | none => .error (.monthName s)

namespace DateSpec

/-- The month that a descriptor names. -/
def monthNumber (spec : DateSpec) : Except DateFault Nat :=
  match spec.month, spec.quarter with
  | some month, _ => month.toMonth
  | none, some q => if 1 ≤ q ∧ q ≤ 4 then .ok ((q - 1) * 3 + 1) else .error (.quarter q)
  | none, none => .ok 1

/-- The clock reading that a descriptor names, given its month. -/
def clock? (spec : DateSpec) (month : Nat) : Option ClockReading := do
  let date ← Date.ofParts? (spec.year.getD 2012) month (spec.date.getD 1)
  ClockReading.ofParts? date (spec.hours.getD 0) (spec.minutes.getD 0) (spec.seconds.getD 0)
    (spec.milliseconds.getD 0 * nanosPerMilli)

/-- The zone whose clock a descriptor is read off. -/
def zone (spec : DateSpec) (isLocal : Bool) : Zone := Zone.ofLocal (isLocal && !spec.utc.getD false)

/-- The instant that a descriptor names. -/
def resolve (spec : DateSpec) (isLocal : Bool) : Except DateFault Instant := do
  let month ← spec.monthNumber
  match (spec.clock? month).bind (·.instantIn? (spec.zone isLocal)) with
  | some t => return t
  | none => throw (.noSuchTime spec)

end DateSpec

/-! ## Messages -/

/-- A month as messages show it. -/
def MonthSpec.inspect : MonthSpec → String
  | .number n => Text.applied "Number" (toString n)
  | .name s => Text.applied "Name" (Text.quoted s)

/-- A descriptor as messages show it. -/
def DateSpec.inspect (spec : DateSpec) : String :=
  let count := Text.inspectOption (β := Nat) toString
  Text.inspectRecord "DateTimeSpec"
    [("year", Text.inspectOption toString spec.year), ("quarter", count spec.quarter),
     ("month", Text.inspectOption MonthSpec.inspect spec.month), ("date", count spec.date),
     ("hours", count spec.hours), ("minutes", count spec.minutes), ("seconds", count spec.seconds),
     ("milliseconds", count spec.milliseconds),
     ("utc", Text.inspectOption Text.inspectBool spec.utc)]

/-- The text of a fault. -/
def DateFault.message : DateFault → String
  | .monthNumber n => "Month " ++ toString n ++ " is out of range 1-12"
  | .monthName s => "Unknown month name '" ++ s ++ "'"
  | .quarter n => "Quarter " ++ toString n ++ " is out of range 1-4"
  | .noSuchTime spec => "Invalid date-time " ++ spec.inspect

/-! ## JSON -/

/-- Reads a month. -/
def MonthSpec.read : Json.Reader MonthSpec :=
  Json.readUnion "MonthSpec"
    [fun j => (Json.readWord j).map .number, fun j => (Json.readString j).map .name]

/-- A month as JSON. -/
def MonthSpec.toJson : MonthSpec → Json
  | .number n => .int n
  | .name s => .string s

namespace DateSpec

/-- The names of the parts in order. -/
def fieldNames : List String :=
  ["year", "quarter", "month", "date", "hours", "minutes", "seconds", "milliseconds", "utc"]

/-- Takes one part. -/
def take (spec : DateSpec) (name : String) (j : Json) : Except Mismatch DateSpec :=
  let word := Json.readOptional Json.readWord
  match name with
  | "year" => return { spec with year := ← Json.readOptional Json.readShort j }
  | "quarter" => return { spec with quarter := ← word j }
  | "month" => return { spec with month := ← Json.readOptional MonthSpec.read j }
  | "date" => return { spec with date := ← word j }
  | "hours" => return { spec with hours := ← word j }
  | "minutes" => return { spec with minutes := ← word j }
  | "seconds" => return { spec with seconds := ← word j }
  | "milliseconds" => return { spec with milliseconds := ← word j }
  | "utc" => return { spec with utc := ← Json.readOptional Json.readBool j }
  | _ => return spec

/-- Reads a descriptor. -/
def read : Json.Reader DateSpec := Json.readRecord "struct DateTimeSpec" fieldNames {} take

/-- A descriptor as JSON. -/
def toJson (spec : DateSpec) : Json :=
  let count (name : String) (n : Option Nat) := Json.optionalMember name (fun n : Nat => .int n) n
  .object <|
    Json.optionalMember "year" .int spec.year ++ count "quarter" spec.quarter ++
    Json.optionalMember "month" MonthSpec.toJson spec.month ++ count "date" spec.date ++
    count "hours" spec.hours ++ count "minutes" spec.minutes ++ count "seconds" spec.seconds ++
    count "milliseconds" spec.milliseconds ++ Json.optionalMember "utc" .bool spec.utc

end DateSpec

end VisualEncoding.Calendar
