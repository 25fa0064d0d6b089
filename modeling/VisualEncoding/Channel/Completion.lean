import VisualEncoding.Channel.Definition

/-!
# Completing definitions

Completion decides everything that a definition leaves open: the family and the defaults of the
scale, the options of the axis, the title, the legend. A complete definition can be written as a
definition again (`toDef`), which completes to itself.

The rules are those of the specification, §4.4, with §4.2 for the scale and §4.3 for the axis. That a family was
inferred or a scale switched off is not logged (§8).
-/

namespace VisualEncoding

variable {α : Type}

namespace FieldDef

/-- The title, which is the name of the field if there is no other. -/
def resolvedTitle (d : FieldDef α) : String := d.title.getD d.field

/-- The scale of a field channel. There is none if it is switched off, or if no family is named and
the channel has no use for a scale. -/
def completeScale (d : FieldDef α) (role : ChannelRole) (isLocal : Bool) :
    Option (CompleteScaleConfig α) := do
  let config ← Configurable.orDefault d.scale
  let family ← config.family.or (ScaleFamily.infer? role d.type d.bin isLocal)
  return { family, options := config.options.completed family }

/-- The axis of a field channel. Only positions have one, unless it is switched off. -/
def completeAxis [Scalar α] (d : FieldDef α) (role : ChannelRole) : Option (CompleteAxisConfig α) :=
  if role.supportsAxis then
    (Configurable.orDefault d.axis).map fun axis => axis.complete role d.resolvedTitle d.format
  else none

/-- A field channel with everything decided. -/
def complete [Scalar α] (d : FieldDef α) (role : ChannelRole) (isLocal : Bool) : CompleteFieldDef α where
  field := d.field
  type := d.type
  format := d.format
  title := d.resolvedTitle
  bin := d.bin
  scale := d.completeScale role isLocal
  axis := d.completeAxis role
  legend := d.legend.getD true

end FieldDef

/-- A definition with everything decided. -/
def ChannelDef.complete [Scalar α] (role : ChannelRole) (isLocal : Bool) :
    ChannelDef α → CompleteChannelDef α
  | .constant value => .constant value
  | .field d => .field (d.complete role isLocal)

/-- A complete field channel written as a definition. -/
def CompleteFieldDef.toDef (d : CompleteFieldDef α) : FieldDef α where
  field := d.field
  type := d.type
  format := d.format
  title := some d.title
  bin := d.bin
  scale := some (.ofOption (d.scale.map (·.toConfig)))
  axis := some (.ofOption (d.axis.map (·.toConfig)))
  legend := some d.legend

/-- A complete definition written as a definition. -/
def CompleteChannelDef.toDef : CompleteChannelDef α → ChannelDef α
  | .constant value => .constant value
  | .field d => .field d.toDef

end VisualEncoding
