import VisualEncoding.Channel.Completion
import VisualEncoding.Order.Extent
import VisualEncoding.Scale.Realization

/-!
# Channel encoders

A channel encoder is a complete definition with its scale realized. It takes the value of its field
from a record, maps it, and labels it; a constant ignores the record. Fitting to a dataset sets the
domain of the scale to what the channel observes there, unless the definition has fixed it.

The operations are those of the specification, §4.6. Notes:
- what an encoder remembers is in the session, so encoding takes and gives one;
- a format that cannot be used is ignored without the warning of §8;
- construction can also fail at a calendar step without a result, not for missing features only;
- the extent of instants puts a leap second before the second after it, while a scale counts milliseconds, in
  which the two overlap, so a leap second can lie beyond the domain that is fitted to it.
-/

namespace VisualEncoding

/-- One channel of a chart, ready to encode. -/
structure ChannelEncoder (α : Type) [Scalar α] where
  name : String
  role : ChannelRole
  definition : CompleteChannelDef α
  /-- There is none if values are shown as they are. -/
  scale : Option (Scale α)
  formatter : Label.Formatter
  isLocal : Bool

namespace CompleteScaleConfig

variable {α : Type}

/-- Whether the domain is left open. -/
def isOpen (c : CompleteScaleConfig α) : Bool := (c.setting .domain).isNone

/-- The config with a domain. -/
def withDomain (c : CompleteScaleConfig α) (values : List (Value α)) : CompleteScaleConfig α :=
  { c with options := c.options.set .domain (some (values.map .value)) }

end CompleteScaleConfig

namespace CompleteChannelDef

variable {α : Type} [Scalar α]

/-- What a channel takes from a record: the constant, or the value of the field. -/
def valueIn (d : CompleteChannelDef α) (datum : Datum α) : Value α :=
  match d with
  | .constant v => v
  | .field d => datum.get d.field

/-- The ends of an extent as values, those of the unit interval if there is none. -/
def ends {β : Type} (wrap : β → Value α) : Option (β × β) → List (Value α)
  | some (lo, hi) => [wrap lo, wrap hi]
  | none => [.number 0, .number 1]

/-- What the values of a field span: the least and the greatest number or instant, or the categories in
the order in which they are first seen. -/
def span (type : DataType) (values : List (Value α)) : List (Value α) :=
  match type with
  | .quantitative =>
    ends .number (Order.extent? (fun x y => decide (x < y)) (values.filterMap Value.toNumber?))
  | .temporal => ends .dateTime (Order.extent? Calendar.Instant.before (values.filterMap Value.toInstant?))
  | .nominal | .ordinal | .geojson => (Categories.ofList values).values

/-- The domain that a channel observes in a dataset; missing values do not count. -/
def observedDomain (d : CompleteChannelDef α) (dataset : List (Datum α)) : List (Value α) :=
  match d with
  | .constant v => [v]
  | .field d => span d.type ((dataset.map fun datum => datum.get d.field).filter fun v => !v.isNull)

/-- The definition with the domain that it observes in a dataset, if its scale leaves the domain open. -/
def fitted? (d : CompleteChannelDef α) (dataset : List (Datum α)) : Option (CompleteChannelDef α) :=
  match d with
  | .constant _ => none
  | .field f => (f.scale.filter fun config => config.isOpen).map fun config =>
      .field { f with scale := some (config.withDomain (d.observedDomain dataset)) }

end CompleteChannelDef

namespace ChannelEncoder

variable {α : Type} [Scalar α]

/-- The maker of labels for a definition. A format that cannot be used is ignored. -/
def formatterFor (d : CompleteChannelDef α) (isLocal : Bool) : Label.Formatter :=
  match Label.Formatter.forField d.format? d.type? isLocal with
  | .ok f => f
  | .error _ => .passthrough

/-- The encoder of a complete definition. -/
def ofComplete (name : String) (role : ChannelRole) (definition : CompleteChannelDef α) (isLocal : Bool) :
    Action α (ChannelEncoder α) := do
  let scale ← definition.scale?.mapM fun config => config.realize
  return { name, role, definition, scale, formatter := formatterFor definition isLocal, isLocal }

/-- The encoder of a definition. -/
def ofDef (name : String) (role : ChannelRole) (d : ChannelDef α) (isLocal : Bool) :
    Action α (ChannelEncoder α) :=
  ofComplete name role (d.complete role isLocal) isLocal

/-- The value of a record, or `fallback` if it is missing. -/
def valueOf (e : ChannelEncoder α) (datum : Datum α) (fallback : Value α) : Value α :=
  let v := e.definition.valueIn datum
  if v.isNull then fallback else v

/-- The value that a value is shown as. -/
def encodeValue (e : ChannelEncoder α) (v : Value α) : StateM (Session α) (Value α) :=
  match e.scale with
  | some scale => scale.apply v
  | none => pure v

/-- The value that a record is shown as, or `fallback` if it has none. A missing value is not given to
the scale. -/
def encodeDatum (e : ChannelEncoder α) (datum : Datum α) (fallback : Value α) :
    StateM (Session α) (Value α) := do
  let v := e.definition.valueIn datum
  let encoded ← if v.isNull then pure .null else e.encodeValue v
  return if encoded.isNull then fallback else encoded

/-- The domain that the channel observes in a dataset. -/
def observedDomain (e : ChannelEncoder α) (dataset : List (Datum α)) : List (Value α) :=
  e.definition.observedDomain dataset

/-- The encoder for a dataset; it is the same one if there is no domain to be set. -/
def fit (e : ChannelEncoder α) (dataset : List (Datum α)) : Action α (ChannelEncoder α) :=
  match e.definition.fitted? dataset with
  | some definition => ofComplete e.name e.role definition e.isLocal
  | none => pure e

/-- Whether the channel divides the data into groups. -/
def isGroupBy (e : ChannelEncoder α) : Bool :=
  match e.definition.type? with
  | some type => e.role.isCategorical || ((e.role == .color || e.role.isPosition) && type.isDiscrete)
  | none => false

/-- Whether a legend explains the channel. -/
def hasLegend (e : ChannelEncoder α) : Bool :=
  match e.definition with
  | .constant _ => false
  | .field d => d.legend && e.role.isLegendEligible

/-- The label of a value. -/
def labelValue (e : ChannelEncoder Float) (v : Value Float) : String := e.formatter.label v

/-- The label of a record. -/
def labelDatum (e : ChannelEncoder Float) (datum : Datum Float) : String :=
  e.labelValue (e.definition.valueIn datum)

end ChannelEncoder

end VisualEncoding
