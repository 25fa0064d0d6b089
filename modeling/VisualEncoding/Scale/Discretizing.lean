import VisualEncoding.Value.Basic
import VisualEncoding.Order.Bisect
import VisualEncoding.Ticks.Linear

/-!
# Scales from numbers to entries

Ascending thresholds cut the numbers into groups, and each group has an entry of the range. A quantize
scale cuts an interval into equal parts, a quantile scale a sample into groups of equal size, and a
threshold scale is given its thresholds.

These are three of the families of the specification, §4.5, which leaves their thresholds open. Notes:
- thresholds are computed from the parameters whenever they are asked for. `CutInterval` keeps those of a
  quantize scale beside its interval;
- a sample is sorted by `Scalar.sortsBefore`, by which a negative zero stands before a positive one although
  the two are equal;
- the rank of a quantile is a natural number of any size, not a machine word;
- thresholds beyond the last entry of a range are not searched (`Threshold.usable`).
-/

namespace VisualEncoding

variable {α : Type} [Scalar α]

/-- The entry of a range for the group of a number. -/
def entryFor (thresholds : List α) (range : List (Value α)) (x : α) : Value α :=
  (range[Order.countUpTo thresholds x]?).getD .null

/-- The ends of an interval moved outward to take in zero. -/
def includeZero (start stop : α) : α × α :=
  if start ≤ stop then (Scalar.least start 0, Scalar.greatest stop 0)
  else (Scalar.greatest start 0, Scalar.least stop 0)

/-- An interval that is cut into equal parts. -/
structure Quantize (α : Type) where
  start : α
  stop : α
  range : List (Value α)

namespace Quantize

/-- The ends of the parts but the last. -/
def thresholds (s : Quantize α) : List α :=
  let n := s.range.length - 1
  (List.range n).map fun i : Nat =>
    let i : α := Scalar.ofInt i
    ((i + 1) * s.stop - (i - Scalar.ofInt n) * s.start) / Scalar.ofInt (n + 1)

/-- Moves the ends outward to ticks. -/
def nice (s : Quantize α) (count : Nat) : Quantize α :=
  let (start, stop) := Ticks.niceLinear s.start s.stop count
  { s with start, stop }

/-- Moves the ends outward to take in zero. -/
def withZero (s : Quantize α) : Quantize α :=
  let (start, stop) := includeZero s.start s.stop
  { s with start, stop }

/-- The entry for a number. -/
def applyNumber (s : Quantize α) (x : α) : Value α := entryFor s.thresholds s.range x

/-- The entry for a value. -/
def apply (s : Quantize α) (v : Value α) : Value α := (v.toNumber?.map s.applyNumber).getD .null

/-- The interval. -/
def domain (s : Quantize α) : List (Value α) := [.number s.start, .number s.stop]

/-- About `count` ticks in the interval. -/
def ticks (s : Quantize α) (count : Nat) : List (Value α) :=
  (Ticks.linear s.start s.stop count).map .number

end Quantize

/-- The quantile `p` of an ascending sample, between the two closest ranks. -/
def quantileOf? (ascending : List α) (p : α) : Option α :=
  if Scalar.isNaN p then none
  else if p ≤ 0 ∨ ascending.length = 1 then ascending.head?
  else if 1 ≤ p then ascending.getLast?
  else
    let rank := Scalar.ofInt (ascending.length - 1 : Nat) * p
    let below := (Scalar.truncate (Scalar.floor rank)).toNat
    match ascending[below]?, ascending[below + 1]? with
    | some v, some w => some (v + (w - v) * (rank - Scalar.ofInt below))
    | _, _ => none

/-- A sample that is cut into groups of equal size. -/
structure Quantile (α : Type) where
  sample : List α
  range : List (Value α)

namespace Quantile

/-- A scale with a sample in any order; undefined numbers are dropped. -/
def ofSample (sample : List α) (range : List (Value α)) : Quantile α :=
  { sample := (sample.filter fun x => !Scalar.isNaN x).mergeSort Scalar.sortsBefore
    range }

/-- The ends of the groups but the last. -/
def thresholds (s : Quantile α) : List α :=
  let n := s.range.length
  (List.range (n - 1)).filterMap fun i : Nat =>
    quantileOf? s.sample (Scalar.ofInt (i + 1) / Scalar.ofInt n)

/-- The entry for a number. -/
def applyNumber (s : Quantile α) (x : α) : Value α := entryFor s.thresholds s.range x

/-- The entry for a value. -/
def apply (s : Quantile α) (v : Value α) : Value α := (v.toNumber?.map s.applyNumber).getD .null

/-- The sample. -/
def domain (s : Quantile α) : List (Value α) := s.sample.map .number

end Quantile

/-- Groups between given thresholds. -/
structure Threshold (α : Type) where
  thresholds : List α
  range : List (Value α)

namespace Threshold

/-- The thresholds that have an entry on both sides. -/
def usable (s : Threshold α) : List α := s.thresholds.take (s.range.length - 1)

/-- The entry for a number. -/
def applyNumber (s : Threshold α) (x : α) : Value α := entryFor s.usable s.range x

/-- The entry for a value. -/
def apply (s : Threshold α) (v : Value α) : Value α := (v.toNumber?.map s.applyNumber).getD .null

/-- The thresholds. -/
def domain (s : Threshold α) : List (Value α) := s.thresholds.map .number

end Threshold

end VisualEncoding
