import VisualEncoding.Text.Inspect
import VisualEncoding.Json.Reading
import VisualEncoding.Value.Basic

/-!
# Values in JSON and in messages

A JSON text that is a timestamp becomes an instant, every other text stays a text. Instants are
written as texts.
-/

namespace VisualEncoding

namespace Value

/-- Reads a value. -/
def read : Json.Reader (Value Float)
  | .null => .ok .null
  | .bool b => .ok (.boolean b)
  | .int n => .ok (.number (Decimal.floatOfInt n))
  | .float x => .ok (.number x)
  | .string s =>
    match Calendar.Timestamp.read? s with
    | some t => .ok (.dateTime t)
    | none => .ok (.string s)
  | _ => .error (.noVariant "Value")

/-- A value as JSON. -/
def toJson : Value Float → Json
  | .null => .null
  | .boolean b => .bool b
  | .number x => .ofFloat x
  | .dateTime t => .string (Calendar.Timestamp.write t)
  | .string s => .string s

/-- A value as messages show it. -/
def inspect : Value Float → String
  | .null => "Null"
  | .boolean b => Text.applied "Boolean" (Text.inspectBool b)
  | .number x => Text.applied "Number" (Decimal.Layout.message.text x)
  | .dateTime t => Text.applied "DateTime" (Calendar.Timestamp.write t)
  | .string s => Text.applied "String" (Text.quoted s)

end Value

/-- Reads a record. Of members with one name the last counts, so it is put where it is found first. -/
def Datum.read (j : Json) : Except Mismatch (Datum Float) := do
  let members ← Json.readMembers j
  let entries ← members.mapM fun (name, j) => return (name, ← Value.read j)
  return entries.reverse

/-- Reads a list of records. -/
def Datum.readAll : Json.Reader (List (Datum Float)) := Json.readList Datum.read

end VisualEncoding
