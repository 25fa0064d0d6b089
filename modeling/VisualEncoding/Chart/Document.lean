import VisualEncoding.Channel.Document
import VisualEncoding.Chart.Encoding
import VisualEncoding.Json.Parser
import VisualEncoding.Problem

/-!
# Charts in JSON

Declared channels are a list of records, an encoding is an object. An encoding can be read from a tree
or from a text. In a text a binding that does not fit is reported even if a later part of the text is
not JSON, because bindings are taken one by one.
-/

namespace VisualEncoding

/-- Reads a role by its exact name. -/
def ChannelRole.read : Json.Reader ChannelRole := Json.readNamed ChannelRole.named

namespace ChannelDeclaration

/-- A declaration whose parts may not have been read yet. -/
structure Draft where
  name : Option String := none
  role : Option ChannelRole := none

/-- Takes one member; members without a meaning are passed over. -/
def Draft.take (d : Draft) (name : String) (j : Json) : Except Mismatch Draft :=
  match name with
  | "name" =>
    if d.name.isSome then throw (.duplicateField name)
    else return { d with name := some (← Json.readString j) }
  | "type" =>
    if d.role.isSome then throw (.duplicateField name)
    else return { d with role := some (← ChannelRole.read j) }
  | _ => return d

/-- The members of a declaration that have a meaning. -/
def memberNames : List String := ["name", "type"]

/-- Whether a value stands in a member without a meaning, in a list of declarations. -/
def ignores (frames : List Json.Frame) : Bool :=
  match frames.drop (frames.length - 2) with
  | [.members _ name, .items _] => !memberNames.contains name
  | _ => false

/-- Reads a declaration. -/
def read (j : Json) : Except Mismatch ChannelDeclaration := do
  let d ← Json.readRecord "struct ChannelDeclaration" memberNames ({} : Draft) Draft.take j
  return { name := ← Json.required "name" d.name, role := ← Json.required "type" d.role }

end ChannelDeclaration

namespace ChannelBinding

/-- Reads what a channel is bound to. -/
def read : Json.Reader (ChannelBinding Float) :=
  Json.readUnion "EncodingEntry"
    [fun j => (ChannelDef.read j).map .single, fun j => (Json.readList ChannelDef.read j).map .multiple]

/-- A binding as JSON. -/
def toJson : ChannelBinding Float → Json
  | .single d => d.toJson
  | .multiple ds => .array (ds.map ChannelDef.toJson)

end ChannelBinding

namespace Encoding

/-- Reads bindings. -/
def ofMembers (members : List (String × Json)) : Except Mismatch (Encoding Float) := do
  let bindings ← members.mapM fun (name, j) => return (name, ← ChannelBinding.read j.canonical)
  return ofList bindings

/-- Reads an encoding. -/
def read (j : Json) : Except Mismatch (Encoding Float) := do ofMembers (← Json.readMembers j)

/-- Reads an encoding from a text. -/
def readText (text : String) : Except (Problem Float) (Encoding Float) :=
  let tokens := Json.tokens text.toList
  let notObject (j : Json) : Except (Problem Float) (Encoding Float) :=
    .error (.unreadable (.wrongType j "a map"))
  match tokens with
  | .openBrace :: _ => do
    let (reading, fault?) := (Json.Reading.start fun _ => false).run tokens
    let encoding ← (ofMembers reading.outerMembers).mapError .unreadable
    match fault? with
    | some fault => throw (.notJson fault)
    | none => return encoding
  | .openBracket :: _ => notObject (.array [])
  | .atom j :: _ => notObject j
  | .text s :: _ => notObject (.string s)
  | .broken _ fault :: _ => .error (.notJson fault)
  | [] => .error (.notJson .truncated)
  | _ => .error (.notJson .malformed)

/-- An encoding as JSON. -/
def toJson (e : Encoding Float) : Json := .object (e.map fun (name, b) => (name, b.toJson))

end Encoding

end VisualEncoding
