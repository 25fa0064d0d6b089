import VisualEncoding.Scalar.Basic
import VisualEncoding.Calendar.Timestamp

/-!
# Data values

Records hold values, scales map values to values, labels are made from values. A value can be viewed
as a number or as an instant where that makes sense, and has a key: two values with the same key are
the same category.

The kinds of values, and the keys, are those of the specification, §3. Two differences:
- a record is a list of pairs, of which the first with the name of a field counts;
- numbers are those of a `Scalar`, so that theorems can take them to be exact.
-/

namespace VisualEncoding

open Calendar (Instant)

/-- A single data value. -/
inductive Value (α : Type) where
  | null
  | boolean (b : Bool)
  | number (x : α)
  | dateTime (t : Instant)
  | string (s : String)
  deriving BEq, DecidableEq, Repr, Inhabited

/-- A data record: values by the names of their fields. -/
abbrev Datum (α : Type) := List (String × Value α)

namespace Value

variable {α : Type} [Scalar α]

/-- Whether a value is missing. -/
def isNull : Value α → Bool
  | .null => true
  | _ => false

/-- The number that a value stands for: one and zero for truth values, milliseconds from
1970-01-01T00:00:00Z for instants, and the number that a numeral names. Undefined numbers do not
count. -/
def toNumber? (v : Value α) : Option α :=
  let n? : Option α := match v with
    | .null => none
    | .boolean b => some (if b then 1 else 0)
    | .number x => some x
    | .dateTime t => some (Scalar.ofInt t.millis)
    | .string s => (Decimal.Numeral.read? s).bind Scalar.ofNumeral?
  n?.filter fun x => !Scalar.isNaN x

/-- The text of a value that is a text. -/
def toText? : Value α → Option String
  | .string s => some s
  | _ => none

/-- The instant that a value stands for. Numbers count milliseconds from 1970-01-01T00:00:00Z, a
fraction dropped; texts are timestamps or dates. -/
def toInstant? : Value α → Option Instant
  | .dateTime t => some t
  | .number x => if Scalar.isFinite x then Instant.ofMillis? (Scalar.toInt64 x) else none
  | .string s => Calendar.Timestamp.readAny? s
  | _ => none

/-- The text of a number in a key: whole numbers below `10 ^ 15` are written as integers. -/
def numberKey (x : α) : String :=
  if Scalar.isWhole x && decide (Scalar.abs x < Scalar.ofInt 1000000000000000) then
    toString (Scalar.truncate x)
  else Scalar.text x

/-- The text that identifies a value as a category. -/
def key : Value α → String
  | .null => "null"
  | .boolean b => if b then "true" else "false"
  | .number x => numberKey x
  | .dateTime t => Calendar.Timestamp.write t
  | .string s => s

/-- The text that a value is shown as. -/
def text (v : Value α) : String := v.key

/-- A number if there is one. -/
def ofNumber? : Option α → Value α
  | some x => .number x
  | none => .null

end Value

/-- The value of a field of a record, missing if the record lacks it. -/
def Datum.get {α : Type} (d : Datum α) (field : String) : Value α := (d.lookup field).getD .null

end VisualEncoding
