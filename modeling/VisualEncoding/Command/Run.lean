import VisualEncoding.Chart.Document
import VisualEncoding.Chart.Encoder
import VisualEncoding.Command.Help

/-!
# Running the command

A task is done in one step from the texts of the files that it names to the text that it prints or
writes, so files are read before and written after it.

The tasks are those of the specification, §10. Logging (§8) is left out, and so is the environment variable
that sets it up.
-/

namespace VisualEncoding.Command

/-- Why a task failed. -/
inductive Failure where
  | unreadableFile (path : String)
  | unsuitableFile (path : String)
  | unsuitableDefinition
  | unwritableFile (path : String)
  | problem (p : Problem Float)

/-- The text of a failure. -/
def Failure.message : Failure → String
  | .unreadableFile path => "Failed to read " ++ path
  | .unsuitableFile path => "Failed to parse " ++ path
  | .unsuitableDefinition => "Failed to parse channel definition"
  | .unwritableFile path => "Failed to write " ++ path
  | .problem p => p.message

/-- A text and the file it goes to, if it is not printed. -/
structure Output where
  text : String
  path : Option String
  deriving Repr, DecidableEq

/-- Reads the text of a definition. -/
def readDefinition (text : String) : Except Failure (ChannelDef Float) :=
  match Json.parse text with
  | .ok j => (ChannelDef.read j.canonical).mapError fun _ => .unsuitableDefinition
  | .error _ => .error .unsuitableDefinition

/-- Reads the file with a path, whose text `texts` gives, ignoring some places of it. -/
def readFile {β : Type} (texts : String → Option String) (ignores : List Json.Frame → Bool)
    (read : Json.Reader β) (path : String) : Except Failure β :=
  match texts path with
  | none => .error (.unreadableFile path)
  | some text =>
    match Json.parseIgnoring ignores text with
    | .ok j => (read j).mapError fun _ => .unsuitableFile path
    | .error _ => .error (.unsuitableFile path)

/-- What a channel shows for a record as JSON. -/
def outputJson : ChannelOutput Float → Json
  | .single v => v.toJson
  | .multiple vs => .array (vs.map Value.toJson)

/-- What the channels show for a record as JSON, in ascending order of their names. -/
def rowJson (row : List (String × ChannelOutput Float)) : Json :=
  Json.ofMembers (row.map fun (name, output) => (name, outputJson output))

/-- Makes an encoder, fits it to a dataset and encodes all records. -/
def encodeDataset (declared : List ChannelDeclaration) (encoding : Encoding Float)
    (dataset : List (Datum Float)) (isLocal : Bool) : Action Float Json := do
  let encoder ← Encoder.ofEncoding declared encoding isLocal
  let encoder ← encoder.fit dataset
  let rows ← dataset.mapM fun datum => (encoder.encodeDatum datum : StateM (Session Float) _)
  return .object
    [("groupBys", .array (encoder.groupBys.map .string)),
     ("legends", .object (encoder.legends.map fun (field, names) => (field, .array (names.map .string)))),
     ("rows", .array (rows.map rowJson))]

/-- Does a task, with the texts of the files it may read. -/
def run (texts : String → Option String) (i : Invocation) : Except Failure Output :=
  match i.task with
  | .help topic => .ok { text := topic.text, path := none }
  | .version => .ok { text := versionText, path := none }
  | .complete role definition => do
    let d ← readDefinition definition
    return { text := (d.complete role i.isLocal).toJson.pretty, path := none }
  | .encode channels encoding data output => do
    let declared ←
      readFile texts ChannelDeclaration.ignores (Json.readList ChannelDeclaration.read) channels
    let encoding ← readFile texts (fun _ => false) Encoding.read encoding
    let dataset ← readFile texts (fun _ => false) Datum.readAll data
    match ((encodeDataset declared encoding dataset i.isLocal).run (Session.ofSchemes {})).1 with
    | .ok j => return { text := j.pretty, path := output }
    | .error p => throw (.problem p)

/-- The paths of the files that a task reads. -/
def Invocation.inputs (i : Invocation) : List String :=
  match i.task with
  | .encode channels encoding data _ => [channels, encoding, data]
  | _ => []

end VisualEncoding.Command
