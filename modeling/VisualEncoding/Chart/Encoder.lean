import VisualEncoding.Chart.ChannelEncoder
import VisualEncoding.Chart.Encoding

/-!
# Encoders

An encoder is all channels of a chart, ready to encode, in the order in which they were declared. It
says which fields divide the data into groups and which channels a legend explains, and it can be
fitted to a dataset as a whole.

The operations are those of the specification, §4.7. The legends are a list that ascends by field. An undeclared
name is reported before anything is made, a missing one when its turn comes.
-/

namespace VisualEncoding

/-- The encoders of one channel. -/
inductive ChannelEncoders (α : Type) [Scalar α] where
  | single (e : ChannelEncoder α)
  | multiple (es : List (ChannelEncoder α))

/-- What a channel shows for a record. -/
inductive ChannelOutput (α : Type) where
  | single (v : Value α)
  | multiple (vs : List (Value α))

/-- A declared channel with its encoders. -/
structure EncodedChannel (α : Type) [Scalar α] where
  name : String
  role : ChannelRole
  encoders : ChannelEncoders α

/-- All channels of a chart. -/
structure Encoder (α : Type) [Scalar α] where
  channels : List (EncodedChannel α)

variable {α : Type} [Scalar α]

namespace ChannelEncoders

/-- The encoders in order. -/
def toList : ChannelEncoders α → List (ChannelEncoder α)
  | .single e => [e]
  | .multiple es => es

/-- The encoder of a channel that has one. -/
def single? : ChannelEncoders α → Option (ChannelEncoder α)
  | .single e => some e
  | .multiple _ => none

/-- Replaces every encoder. -/
def mapM {m : Type → Type} [Monad m] (f : ChannelEncoder α → m (ChannelEncoder α)) :
    ChannelEncoders α → m (ChannelEncoders α)
  | .single e => return .single (← f e)
  | .multiple es => return .multiple (← es.mapM f)

/-- What a record is shown as. -/
def encodeDatum (datum : Datum α) : ChannelEncoders α → StateM (Session α) (ChannelOutput α)
  | .single e => return .single (← e.encodeDatum datum .null)
  | .multiple es => return .multiple (← es.mapM fun e => e.encodeDatum datum .null)

end ChannelEncoders

/-- The encoders of a binding. Those of a list are numbered from zero. -/
def ChannelBinding.encoders (binding : ChannelBinding α) (declared : ChannelDeclaration)
    (isLocal : Bool) : Action α (ChannelEncoders α) :=
  match binding with
  | .single d => return .single (← ChannelEncoder.ofDef declared.name declared.role d isLocal)
  | .multiple ds => do
    let es ← ds.zipIdx.mapM fun (d, i) =>
      ChannelEncoder.ofDef (declared.name ++ "[" ++ toString i ++ "]") declared.role d isLocal
    return .multiple es

namespace Encoder

/-- Binds declared channels in turn; each uses up the binding of its name. -/
def bindChannels (isLocal : Bool) : List ChannelDeclaration → Encoding α → Action α (List (EncodedChannel α))
  | [], _ => return []
  | declared :: rest, encoding => do
    match encoding.lookup declared.name with
    | none => throw (.missingChannel declared.name)
    | some binding =>
      let encoders ← binding.encoders declared isLocal
      let others ← bindChannels isLocal rest (encoding.without declared.name)
      return { name := declared.name, role := declared.role, encoders } :: others

/-- The encoder of an encoding, which has to bind the declared channels and no others. -/
def ofEncoding (declared : List ChannelDeclaration) (encoding : Encoding α) (isLocal : Bool) :
    Action α (Encoder α) := do
  match encoding.undeclared? declared with
  | some name => throw (.undeclaredChannel name (declared.map (·.name)))
  | none => return { channels := ← bindChannels isLocal declared encoding }

/-- The names of the channels. -/
def channelNames (e : Encoder α) : List String := e.channels.map (·.name)

/-- The encoders of a channel. -/
def channel? (e : Encoder α) (name : String) : Option (ChannelEncoders α) :=
  (e.channels.find? fun c => c.name == name).map (·.encoders)

/-- All encoders in order. -/
def encoders (e : Encoder α) : List (ChannelEncoder α) := e.channels.flatMap fun c => c.encoders.toList

/-- The fields that divide the data into groups, each where it first occurs. -/
def groupBys (e : Encoder α) : List String :=
  let fields := (e.encoders.filter fun c => c.isGroupBy).filterMap fun c => c.definition.fieldName?
  (fields.filter fun field => field != "").eraseDups

/-- The field whose legend explains a channel. -/
def legendField? (c : EncodedChannel α) : Option String :=
  (c.encoders.single?.filter fun e => e.hasLegend).bind fun e => e.definition.fieldName?

/-- Adds a channel to the legend of a field; legends stand in ascending order of their fields. -/
def addToLegend (field name : String) : List (String × List String) → List (String × List String)
  | [] => [(field, [name])]
  | (f, names) :: rest =>
    if field < f then (field, [name]) :: (f, names) :: rest
    else if field == f then (f, names ++ [name]) :: rest
    else (f, names) :: addToLegend field name rest

/-- The fields that have a legend, each with the channels that its legend explains. -/
def legends (e : Encoder α) : List (String × List String) :=
  e.channels.foldl
    (fun legends c =>
      match legendField? c with
      | some field => addToLegend field c.name legends
      | none => legends)
    []

/-- Whether there is a legend. -/
def hasLegend (e : Encoder α) : Bool := !e.legends.isEmpty

/-- The encoder for a dataset. -/
def fit (e : Encoder α) (dataset : List (Datum α)) : Action α (Encoder α) := do
  let channels ← e.channels.mapM fun c => do
    return { c with encoders := ← c.encoders.mapM fun e => e.fit dataset }
  return { channels }

/-- What the channels show for a record. -/
def encodeDatum (e : Encoder α) (datum : Datum α) : StateM (Session α) (List (String × ChannelOutput α)) :=
  e.channels.mapM fun c => do
    let output ← c.encoders.encodeDatum datum
    return (c.name, output)

end Encoder

/-- The encoder of a chart of a kind. -/
def ChartKind.encoder (kind : ChartKind α) (overrides : Encoding α) : Action α (Encoder α) :=
  Encoder.ofEncoding kind.channels (kind.encoding overrides) kind.isLocal

end VisualEncoding
