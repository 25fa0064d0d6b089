import VisualEncoding.Channel.Role
import VisualEncoding.Channel.DataType
import VisualEncoding.Channel.Bin

/-!
# Scale families

A scale maps data values to visual ones. Its family says what its domain and range are like. Where a
definition names no family, the role of the channel and the type of its field decide.

The rules are those of the specification, §4.1. An object of bin parameters that sets none of them counts as
`true`.
-/

namespace VisualEncoding

/-- The families of scales. -/
inductive ScaleFamily where
  | linear
  | log
  | pow
  | sqrt
  | symlog
  /-- Time on a local clock. -/
  | time
  /-- Time on a clock at the prime meridian. -/
  | utc
  | ordinal
  | point
  | band
  | quantile
  | quantize
  | threshold
  | binOrdinal
  deriving Repr, DecidableEq

namespace ScaleFamily

/-- All families with their names. -/
def named : List (String × ScaleFamily) :=
  [("linear", .linear), ("log", .log), ("pow", .pow), ("sqrt", .sqrt), ("symlog", .symlog),
   ("time", .time), ("utc", .utc), ("ordinal", .ordinal), ("point", .point), ("band", .band),
   ("quantile", .quantile), ("quantize", .quantize), ("threshold", .threshold),
   ("bin-ordinal", .binOrdinal)]

/-- The name of a family. -/
def name : ScaleFamily → String
  | .linear => "linear"
  | .log => "log"
  | .pow => "pow"
  | .sqrt => "sqrt"
  | .symlog => "symlog"
  | .time => "time"
  | .utc => "utc"
  | .ordinal => "ordinal"
  | .point => "point"
  | .band => "band"
  | .quantile => "quantile"
  | .quantize => "quantize"
  | .threshold => "threshold"
  | .binOrdinal => "bin-ordinal"

/-- From a continuous domain to a continuous range. -/
def isContinuous : ScaleFamily → Bool
  | .linear | .log | .pow | .sqrt | .symlog | .time | .utc => true
  | _ => false

/-- From a discrete domain. -/
def isDiscrete : ScaleFamily → Bool
  | .ordinal | .point | .band | .binOrdinal => true
  | _ => false

/-- From a continuous domain to a discrete range. -/
def isDiscretizing : ScaleFamily → Bool
  | .quantile | .quantize | .threshold => true
  | _ => false

/-- Whether the domain is a span of time. -/
def isTime (f : ScaleFamily) : Bool := f == .time || f == .utc

/-- Whether categories are given positions. -/
def isBanded (f : ScaleFamily) : Bool := f == .point || f == .band

/-- Reads a family by its name. -/
def read : Json.Reader ScaleFamily := Json.readNamed named

/-- A family as JSON. -/
def toJson (f : ScaleFamily) : Json := .string f.name

/-- The family of a field whose values are categories. -/
def forCategories (role : ChannelRole) : ScaleFamily :=
  match role with
  | .color | .category => .ordinal
  | .xBand | .yBand => .band
  | _ => .point

/-- The family of a field whose values are numbers. -/
def forNumbers {α : Type} (role : ChannelRole) (bin : Option (Bin α)) : ScaleFamily :=
  if role == .category then .ordinal
  else match bin with
    | some bin =>
      if bin.isEnabled && !role.isPosition then
        if bin.requestsBuckets then .quantize else .binOrdinal
      else .linear
    | none => .linear

/-- The family for a field of a channel; none if the channel has no use for a scale. -/
def infer? {α : Type} (role : ChannelRole) (type : DataType) (bin : Option (Bin α))
    (isLocal : Bool) : Option ScaleFamily :=
  if role == .text then none
  else match type with
    | .nominal | .ordinal => some (forCategories role)
    | .quantitative => some (forNumbers role bin)
    | .temporal => some (if role == .category then .ordinal else if isLocal then .time else .utc)
    | .geojson => none

end ScaleFamily

end VisualEncoding
