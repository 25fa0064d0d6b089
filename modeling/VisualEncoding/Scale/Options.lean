import VisualEncoding.Value.Basic
import VisualEncoding.Calendar.Descriptor
import VisualEncoding.Scale.Property

/-!
# Scale options

`ScaleOptions` is a record with a field for each property. `ScaleOptions.completed` goes through all
properties and clears those that a family does not support; then it turns on what the family has by
default.

The rules are those of the specification, §4.2; the fields are the members of a scale config in §3. Notes:
- a field is read and set through its `ScaleProperty` (`setting`, `set`) where one rule holds for all of them;
- that a setting is dropped is not logged (§8).
-/

namespace VisualEncoding

/-- How the ends of a domain are moved to round values. -/
inductive Nice (α : Type) where
  | flag (on : Bool)
  | count (n : α)
  | interval (name : String)
  | intervalStep (name : String) (step : α)
  deriving BEq, DecidableEq, Repr

/-- How values between two stops of a range are found. -/
inductive Interpolate (α : Type) where
  | name (method : String)
  | params (method : String) (gamma : Option α)
  deriving BEq, DecidableEq, Repr

/-- An entry of a domain: a value, or a date by its parts. -/
inductive DomainEntry (α : Type) where
  | value (v : Value α)
  | date (spec : Calendar.DateSpec)
  deriving BEq, DecidableEq, Repr

/-- What a property can be set to. -/
@[reducible] def Setting (α : Type) : ScaleProperty → Type
  | .domain => List (DomainEntry α)
  | .range => List (Value α)
  | .reverse | .clamp | .zero | .round => Bool
  | .nice => Nice α
  | .interpolate => Interpolate α
  | .scheme | .colorGroup => String
  | .bins => Json
  | .padding | .paddingInner | .paddingOuter | .align | .base | .exponent | .constant => α

/-- The settings of a scale. -/
@[ext]
structure ScaleOptions (α : Type) where
  domain : Option (List (DomainEntry α)) := none
  range : Option (List (Value α)) := none
  reverse : Option Bool := none
  clamp : Option Bool := none
  nice : Option (Nice α) := none
  zero : Option Bool := none
  round : Option Bool := none
  interpolate : Option (Interpolate α) := none
  padding : Option α := none
  paddingInner : Option α := none
  paddingOuter : Option α := none
  align : Option α := none
  scheme : Option String := none
  colorGroup : Option String := none
  bins : Option Json := none
  base : Option α := none
  exponent : Option α := none
  constant : Option α := none
  deriving BEq, Inhabited

namespace ScaleOptions

variable {α : Type}

/-- Nothing set. -/
def empty : ScaleOptions α := {}

/-- The setting of a property, if it is set. -/
def setting (o : ScaleOptions α) : (p : ScaleProperty) → Option (Setting α p)
  | .domain => o.domain
  | .range => o.range
  | .reverse => o.reverse
  | .clamp => o.clamp
  | .nice => o.nice
  | .zero => o.zero
  | .round => o.round
  | .interpolate => o.interpolate
  | .padding => o.padding
  | .paddingInner => o.paddingInner
  | .paddingOuter => o.paddingOuter
  | .align => o.align
  | .scheme => o.scheme
  | .colorGroup => o.colorGroup
  | .bins => o.bins
  | .base => o.base
  | .exponent => o.exponent
  | .constant => o.constant

/-- The options with another setting of one property. -/
def set (o : ScaleOptions α) : (p : ScaleProperty) → Option (Setting α p) → ScaleOptions α
  | .domain => fun value => { o with domain := value }
  | .range => fun value => { o with range := value }
  | .reverse => fun value => { o with reverse := value }
  | .clamp => fun value => { o with clamp := value }
  | .nice => fun value => { o with nice := value }
  | .zero => fun value => { o with zero := value }
  | .round => fun value => { o with round := value }
  | .interpolate => fun value => { o with interpolate := value }
  | .padding => fun value => { o with padding := value }
  | .paddingInner => fun value => { o with paddingInner := value }
  | .paddingOuter => fun value => { o with paddingOuter := value }
  | .align => fun value => { o with align := value }
  | .scheme => fun value => { o with scheme := value }
  | .colorGroup => fun value => { o with colorGroup := value }
  | .bins => fun value => { o with bins := value }
  | .base => fun value => { o with base := value }
  | .exponent => fun value => { o with exponent := value }
  | .constant => fun value => { o with constant := value }

/-- Whether a property is set. -/
def isSet (o : ScaleOptions α) : ScaleProperty → Bool
  | .domain => o.domain.isSome
  | .range => o.range.isSome
  | .reverse => o.reverse.isSome
  | .clamp => o.clamp.isSome
  | .nice => o.nice.isSome
  | .zero => o.zero.isSome
  | .round => o.round.isSome
  | .interpolate => o.interpolate.isSome
  | .padding => o.padding.isSome
  | .paddingInner => o.paddingInner.isSome
  | .paddingOuter => o.paddingOuter.isSome
  | .align => o.align.isSome
  | .scheme => o.scheme.isSome
  | .colorGroup => o.colorGroup.isSome
  | .bins => o.bins.isSome
  | .base => o.base.isSome
  | .exponent => o.exponent.isSome
  | .constant => o.constant.isSome

/-- The options with one property unset. -/
def clear (o : ScaleOptions α) : ScaleProperty → ScaleOptions α
  | .domain => { o with domain := none }
  | .range => { o with range := none }
  | .reverse => { o with reverse := none }
  | .clamp => { o with clamp := none }
  | .nice => { o with nice := none }
  | .zero => { o with zero := none }
  | .round => { o with round := none }
  | .interpolate => { o with interpolate := none }
  | .padding => { o with padding := none }
  | .paddingInner => { o with paddingInner := none }
  | .paddingOuter => { o with paddingOuter := none }
  | .align => { o with align := none }
  | .scheme => { o with scheme := none }
  | .colorGroup => { o with colorGroup := none }
  | .bins => { o with bins := none }
  | .base => { o with base := none }
  | .exponent => { o with exponent := none }
  | .constant => { o with constant := none }

/-- Clears a property if it is set and a family does not support it. -/
def dropUnsupported (f : ScaleFamily) (o : ScaleOptions α) (p : ScaleProperty) : ScaleOptions α :=
  if o.isSet p && !f.supports p then o.clear p else o

/-- The options with only those settings that a family supports. All properties are gone through in turn. -/
def restrictedTo (o : ScaleOptions α) (f : ScaleFamily) : ScaleOptions α :=
  ScaleProperty.all.foldl (dropUnsupported f) o

/-- Sets a property if a family has it on by default and nobody has set it. -/
def turnOn (o : ScaleOptions α) (f : ScaleFamily) (p : ScaleProperty) (value : Setting α p) : ScaleOptions α :=
  if f.defaultsOn p && !o.isSet p then o.set p (some value) else o

/-- Turns on what a family has on by default and is unset. -/
def withDefaults (o : ScaleOptions α) (f : ScaleFamily) : ScaleOptions α :=
  ((o.turnOn f .nice (.flag true)).turnOn f .clamp true).turnOn f .zero true

/-- The supported settings of a family, and its defaults for what is unset. -/
def completed (o : ScaleOptions α) (f : ScaleFamily) : ScaleOptions α :=
  (o.restrictedTo f).withDefaults f

/-- Whether a flag is set and on. -/
def isOn (flag : Option Bool) : Bool := flag == some true

end ScaleOptions

/-- A scale as a definition asks for it; the family may be left open. -/
@[ext]
structure ScaleConfig (α : Type) where
  family : Option ScaleFamily := none
  options : ScaleOptions α := {}
  deriving BEq, Inhabited

/-- A scale with its family. -/
@[ext]
structure CompleteScaleConfig (α : Type) where
  family : ScaleFamily
  options : ScaleOptions α := {}
  deriving BEq

namespace CompleteScaleConfig

variable {α : Type}

/-- The setting of a property. -/
def setting (c : CompleteScaleConfig α) (p : ScaleProperty) : Option (Setting α p) :=
  c.options.setting p

/-- The config with only those settings that its family supports. -/
def restricted (c : CompleteScaleConfig α) : CompleteScaleConfig α :=
  { c with options := c.options.restrictedTo c.family }

/-- The config as a definition would ask for it. -/
def toConfig (c : CompleteScaleConfig α) : ScaleConfig α :=
  { family := some c.family, options := c.options }

end CompleteScaleConfig

end VisualEncoding
