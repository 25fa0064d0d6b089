import VisualEncoding.Scale.Family

/-!
# Scale properties

Not every property means something for every family: a padding on a log scale, a base on a band
scale. `ScaleFamily.supports` is the table of what may be set on which family.

The table is that of the specification, §4.2, with `colorGroup` for what it calls `namespace`. The property
names in JSON are kept.
-/

namespace VisualEncoding

/-- The properties of a scale besides its family. -/
inductive ScaleProperty where
  | domain
  | range
  | reverse
  | clamp
  | nice
  | zero
  | round
  | interpolate
  | padding
  | paddingInner
  | paddingOuter
  | align
  | scheme
  | colorGroup
  | bins
  | base
  | exponent
  | constant
  deriving Repr, DecidableEq

namespace ScaleProperty

/-- All properties in the order in which they are written. -/
def all : List ScaleProperty :=
  [.domain, .range, .reverse, .clamp, .nice, .zero, .round, .interpolate, .padding, .paddingInner,
   .paddingOuter, .align, .scheme, .colorGroup, .bins, .base, .exponent, .constant]

/-- The name of a property. -/
def name : ScaleProperty → String
  | .domain => "domain"
  | .range => "range"
  | .reverse => "reverse"
  | .clamp => "clamp"
  | .nice => "nice"
  | .zero => "zero"
  | .round => "round"
  | .interpolate => "interpolate"
  | .padding => "padding"
  | .paddingInner => "paddingInner"
  | .paddingOuter => "paddingOuter"
  | .align => "align"
  | .scheme => "scheme"
  | .colorGroup => "namespace"
  | .bins => "bins"
  | .base => "base"
  | .exponent => "exponent"
  | .constant => "constant"

/-- The property with a name. -/
def ofName? (s : String) : Option ScaleProperty := all.find? fun p => p.name == s

end ScaleProperty

namespace ScaleFamily

/-- Whether a property may be set on a family. -/
def supports (f : ScaleFamily) : ScaleProperty → Bool
  | .domain | .range | .reverse => true
  | .clamp | .interpolate => f.isContinuous
  | .nice => f.isContinuous || f == .quantize || f == .threshold
  | .zero => f == .linear || f == .pow || f == .sqrt || f == .symlog || f == .quantize
  | .round => f.isContinuous || f.isBanded
  | .padding | .paddingOuter | .align => f.isBanded
  | .paddingInner => f == .band
  | .scheme => !f.isBanded
  | .colorGroup => f == .ordinal
  | .bins => f.isContinuous || f == .binOrdinal
  | .base => f == .log
  | .exponent => f == .pow
  | .constant => f == .symlog

/-- Whether completion turns a property on that is left unset. -/
def defaultsOn (f : ScaleFamily) (p : ScaleProperty) : Bool :=
  (p == .nice || p == .clamp || p == .zero) && f.supports p

end ScaleFamily

end VisualEncoding
