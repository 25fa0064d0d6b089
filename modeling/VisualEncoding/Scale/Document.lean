import VisualEncoding.Value.Document
import VisualEncoding.Scale.Options

/-!
# Scale configs in JSON

The settings stand beside the family in one object, in the order of the properties. Members that name
no property are ignored.
-/

namespace VisualEncoding

/-- Takes one part of an interval with a step. -/
def Nice.takePart (parts : Option String × Option Float) (name : String) (j : Json) :
    Except Mismatch (Option String × Option Float) :=
  match name with
  | "interval" => return (some (← Json.readString j), parts.2)
  | "step" => return (parts.1, some (← Json.readFloat j))
  | _ => return parts

/-- Reads an interval with a step. -/
def Nice.readIntervalStep (j : Json) : Except Mismatch (Nice Float) := do
  let parts ← Json.readRecord "an interval with a step" ["interval", "step"] (none, none)
    takePart j
  return .intervalStep (← Json.required "interval" parts.1) (← Json.required "step" parts.2)

/-- Reads a nice setting. -/
def Nice.read : Json.Reader (Nice Float) :=
  Json.readUnion "Nice"
    [fun j => (Json.readBool j).map .flag, fun j => (Json.readFloat j).map .count,
     fun j => (Json.readString j).map .interval, readIntervalStep]

/-- A nice setting as JSON. -/
def Nice.toJson : Nice Float → Json
  | .flag on => .bool on
  | .count n => .ofFloat n
  | .interval name => .string name
  | .intervalStep name step => .object [("interval", .string name), ("step", .ofFloat step)]

/-- Takes one part of an interpolation method with parameters. -/
def Interpolate.takePart (parts : Option String × Option Float) (name : String) (j : Json) :
    Except Mismatch (Option String × Option Float) :=
  match name with
  | "type" => return (some (← Json.readString j), parts.2)
  | "gamma" => return (parts.1, ← Json.readOptional Json.readFloat j)
  | _ => return parts

/-- Reads an interpolation method with parameters. -/
def Interpolate.readParams (j : Json) : Except Mismatch (Interpolate Float) := do
  let parts ← Json.readRecord "a method with parameters" ["type", "gamma"] (none, none)
    takePart j
  return .params (← Json.required "type" parts.1) parts.2

/-- Reads an interpolation method. -/
def Interpolate.read : Json.Reader (Interpolate Float) :=
  Json.readUnion "Interpolate" [fun j => (Json.readString j).map .name, readParams]

/-- An interpolation method as JSON. -/
def Interpolate.toJson : Interpolate Float → Json
  | .name method => .string method
  | .params method gamma =>
    .object (("type", .string method) :: Json.optionalMember "gamma" .ofFloat gamma)

/-- Reads an entry of a domain. -/
def DomainEntry.read : Json.Reader (DomainEntry Float) :=
  Json.readUnion "DomainValue"
    [fun j => (Value.read j).map .value, fun j => (Calendar.DateSpec.read j).map .date]

/-- An entry of a domain as JSON. -/
def DomainEntry.toJson : DomainEntry Float → Json
  | .value v => v.toJson
  | .date spec => spec.toJson

/-- An entry of a domain as messages show it. -/
def DomainEntry.inspect : DomainEntry Float → String
  | .value v => Text.applied "Value" v.inspect
  | .date spec => Text.applied "DateTime" spec.inspect

/-- Reads the setting of a property. -/
def Setting.read : (p : ScaleProperty) → Json.Reader (Setting Float p)
  | .domain => Json.readList DomainEntry.read
  | .range => Json.readList Value.read
  | .reverse | .clamp | .zero | .round => Json.readBool
  | .nice => Nice.read
  | .interpolate => Interpolate.read
  | .scheme | .colorGroup => Json.readString
  | .bins => fun j => .ok j
  | .padding | .paddingInner | .paddingOuter | .align | .base | .exponent | .constant => Json.readFloat

/-- The setting of a property as JSON. -/
def Setting.toJson : (p : ScaleProperty) → Setting Float p → Json
  | .domain => fun entries => .array (entries.map DomainEntry.toJson)
  | .range => fun values => .array (values.map Value.toJson)
  | .reverse | .clamp | .zero | .round => .bool
  | .nice => Nice.toJson
  | .interpolate => Interpolate.toJson
  | .scheme | .colorGroup => .string
  | .bins => fun j => j
  | .padding | .paddingInner | .paddingOuter | .align | .base | .exponent | .constant => .ofFloat

namespace ScaleOptions

/-- Takes one setting. -/
def take (o : ScaleOptions Float) (name : String) (j : Json) : Except Mismatch (ScaleOptions Float) :=
  match ScaleProperty.ofName? name with
  | some p => return o.set p (← Json.readOptional (Setting.read p) j)
  | none => return o

/-- Reads the settings among the members of an object. -/
def ofMembers (members : List (String × Json)) : Except Mismatch (ScaleOptions Float) :=
  members.foldlM (fun o (name, j) => o.take name j) {}

/-- The settings as members of an object. -/
def toMembers (o : ScaleOptions Float) : List (String × Json) :=
  ScaleProperty.all.flatMap fun p => Json.optionalMember p.name (Setting.toJson p) (o.setting p)

end ScaleOptions

/-- The value of the last member of a name. -/
def Json.lastMember? (name : String) (members : List (String × Json)) : Option Json :=
  members.reverse.lookup name

/-- Reads a scale config. -/
def ScaleConfig.read (j : Json) : Except Mismatch (ScaleConfig Float) := do
  match j with
  | .object members =>
    let family ← match Json.lastMember? "type" members with
      | some j => Json.readOptional ScaleFamily.read j
      | none => pure none
    return { family, options := ← ScaleOptions.ofMembers members }
  | j => throw (.wrongType j "a scale config")

/-- A scale config as JSON. -/
def ScaleConfig.toJson (c : ScaleConfig Float) : Json :=
  .object (Json.optionalMember "type" ScaleFamily.toJson c.family ++ c.options.toMembers)

/-- Reads a scale config that names its family. -/
def CompleteScaleConfig.read (j : Json) : Except Mismatch (CompleteScaleConfig Float) := do
  match j with
  | .object members =>
    let family ← match Json.lastMember? "type" members with
      | some j => ScaleFamily.read j
      | none => throw (.missingField "type")
    return { family, options := ← ScaleOptions.ofMembers members }
  | j => throw (.wrongType j "struct CompleteScaleConfig")

/-- A complete scale config as JSON. -/
def CompleteScaleConfig.toJson (c : CompleteScaleConfig Float) : Json :=
  .object (("type", c.family.toJson) :: c.options.toMembers)

end VisualEncoding
