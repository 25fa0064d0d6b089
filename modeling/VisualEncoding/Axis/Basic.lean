import VisualEncoding.Value.Basic
import VisualEncoding.Channel.Role

/-!
# Axes

Only positions have an axis. A definition may set any of its options; completion fills in the rest.

The defaults are those of the specification, §4.3. A missing axis stands for its disabled sentinel.
-/

namespace VisualEncoding

/-- The side of the plot that an axis is on. -/
inductive AxisOrient where
  | top
  | bottom
  | left
  | right
  deriving Repr, DecidableEq

/-- What is done about labels that would overlap. -/
inductive LabelStrategy (α : Type) where
  | flat
  | rotate (angle : α)
  deriving BEq, DecidableEq, Repr

/-- A name for what is done about labels that would overlap. -/
inductive LabelShorthand where
  | flat
  | rotate
  | auto
  deriving Repr, DecidableEq

/-- What a definition asks for about labels that would overlap. -/
inductive LabelOverlap (α : Type) where
  | shorthand (s : LabelShorthand)
  | strategy (s : LabelStrategy α)
  deriving BEq, DecidableEq, Repr

/-- The options of an axis. -/
@[ext]
structure AxisConfig (α : Type) where
  format : Option String := none
  labelAngle : Option α := none
  labelFlush : Option Bool := none
  labelOverlap : Option (LabelOverlap α) := none
  labelPadding : Option α := none
  orient : Option AxisOrient := none
  tickCount : Option Nat := none
  ticks : Option Bool := none
  title : Option String := none
  titlePadding : Option α := none
  /-- The values to put ticks at. -/
  values : Option (List (Value α)) := none
  deriving BEq, DecidableEq, Repr, Inhabited

/-- An axis with every option decided. -/
@[ext]
structure CompleteAxisConfig (α : Type) where
  format : Option String
  labelAngle : α
  labelFlush : Bool
  labelOverlap : LabelStrategy α
  labelPadding : α
  orient : AxisOrient
  tickCount : Nat
  ticks : Bool
  title : String
  titlePadding : α
  values : Option (List (Value α))
  deriving BEq, DecidableEq, Repr

namespace AxisOrient

/-- The side for the axis of a channel. -/
def forRole (role : ChannelRole) : AxisOrient := if role.isX then .bottom else .left

end AxisOrient

variable {α : Type}

namespace LabelOverlap

variable [Scalar α]

/-- The angle of labels that are rotated without a word about the angle. -/
def defaultAngle : α := 40

/-- What is done about overlapping labels; labels of horizontal axes are rotated by default. -/
def resolve (role : ChannelRole) : LabelOverlap α → LabelStrategy α
  | .strategy s => s
  | .shorthand .flat => .flat
  | .shorthand .rotate => .rotate defaultAngle
  | .shorthand .auto => if role.isX then .rotate defaultAngle else .flat

end LabelOverlap

namespace AxisConfig

variable [Scalar α]

/-- Decides every option. The title and the format fall back to those of the channel. -/
def complete (axis : AxisConfig α) (role : ChannelRole) (title : String) (format : Option String) :
    CompleteAxisConfig α where
  format := axis.format.or format
  labelAngle := axis.labelAngle.getD 0
  labelFlush := axis.labelFlush.getD true
  labelOverlap := (axis.labelOverlap.getD (.shorthand .auto)).resolve role
  labelPadding := axis.labelPadding.getD 4
  orient := axis.orient.getD (.forRole role)
  tickCount := axis.tickCount.getD 5
  ticks := axis.ticks.getD true
  title := axis.title.getD title
  titlePadding := axis.titlePadding.getD 4
  values := axis.values

end AxisConfig

/-- The axis as a definition would ask for it. -/
def CompleteAxisConfig.toConfig (axis : CompleteAxisConfig α) : AxisConfig α where
  format := axis.format
  labelAngle := some axis.labelAngle
  labelFlush := some axis.labelFlush
  labelOverlap := some (.strategy axis.labelOverlap)
  labelPadding := some axis.labelPadding
  orient := some axis.orient
  tickCount := some axis.tickCount
  ticks := some axis.ticks
  title := some axis.title
  titlePadding := some axis.titlePadding
  values := axis.values

end VisualEncoding
