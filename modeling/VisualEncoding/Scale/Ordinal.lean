import VisualEncoding.Value.Categories
import VisualEncoding.Color.Table
import VisualEncoding.Order.Bisect

/-!
# Ordinal scales

An ordinal scale gives its categories the entries of a range in turn, starting over when they run out.
A category that is met for the first time is added to the domain. Ordinal scales without a range share
a color table instead. A bin scale treats the intervals between ascending boundaries as categories.

These are the ordinal scales of the specification, §4.5. Notes:
- a lookup gives the answer together with the scale that has grown by it; a `Session` keeps the grown one;
- the place of a key is found by going through the categories. `IndexedOrdinal` keeps an index beside them;
  that it answers alike is proved in `Proofs/Scale/GrowingCategories`;
- a bin scale with as many entries as bins starts its range over at the last boundary, so that a number there
  has the entry of the first bin.
-/

namespace VisualEncoding

variable {α : Type} [Scalar α]

/-- An ordinal scale with a range of its own. -/
structure Ordinal (α : Type) [Scalar α] where
  domain : Categories α
  range : List (Value α)

namespace Ordinal

/-- An ordinal scale with the categories of a list. -/
def ofList (domain range : List (Value α)) : Ordinal α := { domain := .ofList domain, range }

/-- The entry of the range for the category at a place. -/
def slot (s : Ordinal α) (i : Nat) : Value α := (s.range[i % s.range.length]?).getD .null

/-- The entry for a value, and the scale with the value among its categories. -/
def apply (s : Ordinal α) (v : Value α) : Value α × Ordinal α :=
  match s.domain.position? v.key with
  | some i => (s.slot i, s)
  | none => (s.slot s.domain.size, { s with domain := s.domain.insert v })

end Ordinal

namespace ColorTable

/-- Gives the categories the colors of the palette in turn, whatever they had before. -/
def preassign (t : ColorTable) (domain : Categories α) : ColorTable :=
  domain.values.zipIdx.foldl
    (fun t (v, i) =>
      match t.palette[i % t.palette.length]? with
      | some color => t.setColor v color
      | none => t)
    t

/-- The color of a value as a value; a missing value has none. -/
def valueFor (t : ColorTable) (v : Value α) : Value α × ColorTable :=
  if v.isNull then (.null, t)
  else
    let (color, t) := t.colorFor v
    (.string color, t)

end ColorTable

/-- An ordinal scale over bins with ascending boundaries. -/
structure BinOrdinal (α : Type) where
  boundaries : List α
  range : List (Value α)

namespace BinOrdinal

/-- The entry for the bin of a number; none below the first boundary. -/
def applyNumber (s : BinOrdinal α) (x : α) : Value α :=
  match Order.countUpTo s.boundaries x with
  | 0 => .null
  | i + 1 => (s.range[i % s.range.length]?).getD .null

/-- The entry for a value. -/
def apply (s : BinOrdinal α) (v : Value α) : Value α := (v.toNumber?.map s.applyNumber).getD .null

end BinOrdinal

end VisualEncoding
