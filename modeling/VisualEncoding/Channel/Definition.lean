import VisualEncoding.Axis.Basic
import VisualEncoding.Scale.Options

/-!
# Channel definitions

A channel shows either a constant or a field of the data. The definition of a field may say how its
values are scaled, labelled and explained; a scale or an axis may also be switched off.

The definitions are those of the specification, §3. `Configurable` is its `false | config`; a complete
definition has `none` for what is disabled, and a constant has no axis, scale or title at all instead of
empty ones.
-/

namespace VisualEncoding

/-- A part of a definition that can be switched off. -/
inductive Configurable (β : Type) where
  | disabled
  | enabled (config : β)
  deriving BEq, Repr

/-- A channel bound to a data field. -/
@[ext]
structure FieldDef (α : Type) where
  field : String
  type : DataType
  format : Option String := none
  title : Option String := none
  bin : Option (Bin α) := none
  scale : Option (Configurable (ScaleConfig α)) := none
  axis : Option (Configurable (AxisConfig α)) := none
  legend : Option Bool := none
  deriving BEq

/-- The definition of a channel. -/
inductive ChannelDef (α : Type) where
  | constant (value : Value α)
  | field (d : FieldDef α)
  deriving BEq

/-- A field channel with everything decided. A missing scale or axis is switched off. -/
@[ext]
structure CompleteFieldDef (α : Type) where
  field : String
  type : DataType
  format : Option String
  title : String
  bin : Option (Bin α)
  scale : Option (CompleteScaleConfig α)
  axis : Option (CompleteAxisConfig α)
  legend : Bool
  deriving BEq

/-- The definition of a channel with everything decided. -/
inductive CompleteChannelDef (α : Type) where
  | constant (value : Value α)
  | field (d : CompleteFieldDef α)
  deriving BEq

namespace Configurable

variable {β : Type}

/-- The config, if it is not switched off. -/
def toOption : Configurable β → Option β
  | .disabled => none
  | .enabled config => some config

/-- A config that is switched off if there is none. -/
def ofOption : Option β → Configurable β
  | none => .disabled
  | some config => .enabled config

/-- The config of a part that may be left out, which counts as enabled with nothing set. -/
def orDefault [Inhabited β] (part : Option (Configurable β)) : Option β :=
  (part.getD (.enabled default)).toOption

end Configurable

variable {α : Type}

namespace ChannelDef

/-- Whether a channel is bound to a field. -/
def isField : ChannelDef α → Bool
  | .constant _ => false
  | .field _ => true

/-- The field that a channel is bound to. -/
def fieldName? : ChannelDef α → Option String
  | .constant _ => none
  | .field d => some d.field

end ChannelDef

namespace CompleteChannelDef

/-- The definition of a field channel. -/
def field? : CompleteChannelDef α → Option (CompleteFieldDef α)
  | .constant _ => none
  | .field d => some d

/-- The field that a channel is bound to. -/
def fieldName? (d : CompleteChannelDef α) : Option String := d.field?.map (·.field)

/-- The type of the field that a channel is bound to. -/
def type? (d : CompleteChannelDef α) : Option DataType := d.field?.map (·.type)

/-- The title, which a constant does not have. -/
def title (d : CompleteChannelDef α) : String := (d.field?.map (·.title)).getD ""

/-- The format of labels. -/
def format? (d : CompleteChannelDef α) : Option String := d.field?.bind (·.format)

/-- The scale, if there is one. -/
def scale? (d : CompleteChannelDef α) : Option (CompleteScaleConfig α) := d.field?.bind (·.scale)

/-- The axis, if there is one. -/
def axis? (d : CompleteChannelDef α) : Option (CompleteAxisConfig α) := d.field?.bind (·.axis)

end CompleteChannelDef

end VisualEncoding
