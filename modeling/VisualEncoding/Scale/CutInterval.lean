import VisualEncoding.Scale.Discretizing

/-!
# Intervals that are cut

A quantize scale can be cut once for each change of its interval and asked for entries afterwards. The thresholds are
then kept beside the interval.
-/

namespace VisualEncoding

variable {α : Type} [Scalar α]

/-- A quantize scale and the ends of its parts but the last. -/
structure CutInterval (α : Type) where
  scale : Quantize α
  thresholds : List α

namespace CutInterval

/-- Cuts the interval of a scale. -/
def cut (s : Quantize α) : CutInterval α := { scale := s, thresholds := s.thresholds }

/-- An interval that is cut into as many parts as there are entries. -/
def ofEnds (start stop : α) (range : List (Value α)) : CutInterval α := cut { start, stop, range }

/-- Moves the ends outward to ticks and cuts again. -/
def nice (s : CutInterval α) (count : Nat) : CutInterval α := cut (s.scale.nice count)

/-- Moves the ends outward to take in zero and cuts again. -/
def withZero (s : CutInterval α) : CutInterval α := cut s.scale.withZero

/-- The entry for a number. -/
def applyNumber (s : CutInterval α) (x : α) : Value α := entryFor s.thresholds s.scale.range x

/-- The entry for a value. -/
def apply (s : CutInterval α) (v : Value α) : Value α := (v.toNumber?.map s.applyNumber).getD .null

end CutInterval

end VisualEncoding
