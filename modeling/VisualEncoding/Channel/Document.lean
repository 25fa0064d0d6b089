import VisualEncoding.Axis.Document
import VisualEncoding.Scale.Document
import VisualEncoding.Channel.Definition

/-!
# Channel definitions in JSON

An object with a `value` is a constant, any other one a field. A scale or an axis is switched off by
`false` or `null`; `true` leaves it to its defaults. Members that a definition does not have are
refused.
-/

namespace VisualEncoding

/-- Reads a part that can be switched off. -/
def Configurable.read {β : Type} [Inhabited β] (read : Json.Reader β) : Json.Reader (Configurable β) :=
  Json.readUnion "ConfigurableRepr"
    [fun j => do
      match ← Json.readOptional Json.readBool j with
      | some true => return .enabled default
      | _ => return .disabled,
     fun j => (read j).map .enabled]

/-- A part that can be switched off as JSON. -/
def Configurable.toJson {β : Type} (write : β → Json) : Configurable β → Json
  | .disabled => .bool false
  | .enabled config => write config

namespace FieldDef

/-- The names of the members in order. -/
def memberNames : List String :=
  ["field", "type", "format", "title", "bin", "scale", "axis", "legend"]

/-- A field channel whose field and type may not have been read yet. -/
structure Draft where
  field : Option String := none
  type : Option DataType := none
  rest : FieldDef Float := { field := "", type := .nominal }

/-- Takes one member. -/
def Draft.take (d : Draft) (name : String) (j : Json) : Except Mismatch Draft :=
  let text := Json.readOptional Json.readString
  match name with
  | "field" => return { d with field := some (← Json.readString j) }
  | "type" => return { d with type := some (← DataType.read j) }
  | "format" => return { d with rest := { d.rest with format := ← text j } }
  | "title" => return { d with rest := { d.rest with title := ← text j } }
  | "bin" => return { d with rest := { d.rest with bin := ← Json.readOptional Bin.read j } }
  | "scale" =>
    return { d with rest := { d.rest with scale := some (← Configurable.read ScaleConfig.read j) } }
  | "axis" =>
    return { d with rest := { d.rest with axis := some (← Configurable.read AxisConfig.read j) } }
  | "legend" => return { d with rest := { d.rest with legend := ← Json.readOptional Json.readBool j } }
  | _ => throw (.unknownField name memberNames)

/-- Reads a field channel from its members. -/
def ofMembers (members : List (String × Json)) : Except Mismatch (FieldDef Float) := do
  let d ← members.foldlM (fun (d : Draft) (name, j) => d.take name j) {}
  return { d.rest with field := ← Json.required "field" d.field, type := ← Json.required "type" d.type }

/-- A field channel as JSON. -/
def toJson (d : FieldDef Float) : Json :=
  .object <|
    [("field", .string d.field), ("type", d.type.toJson)] ++
    Json.optionalMember "format" .string d.format ++ Json.optionalMember "title" .string d.title ++
    Json.optionalMember "bin" Bin.toJson d.bin ++
    Json.optionalMember "scale" (Configurable.toJson ScaleConfig.toJson) d.scale ++
    Json.optionalMember "axis" (Configurable.toJson AxisConfig.toJson) d.axis ++
    Json.optionalMember "legend" .bool d.legend

end FieldDef

namespace ChannelDef

/-- Takes the value of a constant. -/
def takeConstant (_ : Option (Value Float)) (name : String) (j : Json) :
    Except Mismatch (Option (Value Float)) :=
  match name with
  | "value" => return some (← Value.read j)
  | _ => throw (.unknownField name ["value"])

/-- Reads a constant from its members. -/
def constantOfMembers (members : List (String × Json)) : Except Mismatch (Value Float) := do
  Json.required "value" (← members.foldlM (fun v (name, j) => takeConstant v name j) none)

/-- Reads a definition. -/
def read (j : Json) : Except Mismatch (ChannelDef Float) := do
  let members ← Json.readMembers j
  let has (name : String) : Bool := members.any fun m => m.1 == name
  match has "field", has "value" with
  | true, true => throw .fieldAndValue
  | false, true => return .constant (← constantOfMembers members)
  | _, false => return .field (← FieldDef.ofMembers members)

/-- A definition as JSON. -/
def toJson : ChannelDef Float → Json
  | .constant value => .object [("value", value.toJson)]
  | .field d => d.toJson

end ChannelDef

/-- A part that is `false` if there is none. -/
def Json.orFalse {β : Type} (write : β → Json) : Option β → Json
  | some b => write b
  | none => .bool false

/-- A complete definition as JSON. -/
def CompleteChannelDef.toJson : CompleteChannelDef Float → Json
  | .constant value =>
    .object [("value", value.toJson), ("axis", .bool false), ("scale", .bool false), ("title", .string "")]
  | .field d =>
    .object <|
      [("field", .string d.field), ("type", d.type.toJson)] ++
      Json.optionalMember "format" .string d.format ++ [("title", .string d.title)] ++
      Json.optionalMember "bin" Bin.toJson d.bin ++
      [("scale", Json.orFalse CompleteScaleConfig.toJson d.scale),
       ("axis", Json.orFalse CompleteAxisConfig.toJson d.axis), ("legend", .bool d.legend)]

end VisualEncoding
