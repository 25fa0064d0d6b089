import VisualEncoding.Json.Reading

/-!
# Channel roles

The role that a channel plays in a chart decides which parts of a definition apply to it: only
positions have an axis, and only some roles can be explained by a legend.
-/

namespace VisualEncoding

/-- The role that a channel plays in a chart. -/
inductive ChannelRole where
  | x
  | y
  /-- A horizontal position that reserves the width of a band, as for bars. -/
  | xBand
  /-- A vertical position that reserves the width of a band. -/
  | yBand
  | color
  | size
  /-- Any other numeric property, such as an opacity. -/
  | numeric
  /-- A property with few values, such as a shape. -/
  | category
  | text
  deriving Repr, DecidableEq

namespace ChannelRole

/-- All roles with their names. -/
def named : List (String × ChannelRole) :=
  [("X", .x), ("Y", .y), ("XBand", .xBand), ("YBand", .yBand), ("Color", .color), ("Size", .size),
   ("Numeric", .numeric), ("Category", .category), ("Text", .text)]

/-- The name of a role. -/
def name : ChannelRole → String
  | .x => "X"
  | .y => "Y"
  | .xBand => "XBand"
  | .yBand => "YBand"
  | .color => "Color"
  | .size => "Size"
  | .numeric => "Numeric"
  | .category => "Category"
  | .text => "Text"

/-- A horizontal position. -/
def isX (r : ChannelRole) : Bool := r == .x || r == .xBand

/-- A vertical position. -/
def isY (r : ChannelRole) : Bool := r == .y || r == .yBand

/-- A position. -/
def isPosition (r : ChannelRole) : Bool := r.isX || r.isY

/-- A position that reserves a band for each category. -/
def isBand (r : ChannelRole) : Bool := r == .xBand || r == .yBand

/-- Whether channels of this role have an axis. -/
def supportsAxis (r : ChannelRole) : Bool := r.isPosition

/-- Whether a legend can explain channels of this role. -/
def isLegendEligible (r : ChannelRole) : Bool :=
  r == .color || r == .size || r == .numeric || r == .category

/-- Whether channels of this role divide the data into groups whatever their field holds. -/
def isCategorical (r : ChannelRole) : Bool := r == .category || r == .text

/-- The role with a name in any case of its ASCII letters. -/
def ofName? (s : String) : Option ChannelRole :=
  (named.find? fun (n, _) => n.toLower == s.toLower).map Prod.snd

end ChannelRole

end VisualEncoding
