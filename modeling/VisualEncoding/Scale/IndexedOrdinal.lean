import VisualEncoding.Scale.Ordinal

/-!
# Ordinal scales with an index

The place of a key can be looked up in an index that is kept beside the categories. A category that is met for the
first time is then entered in both.
-/

namespace VisualEncoding

variable {α : Type} [Scalar α]

/-- Values in the order in which their keys were first seen, and the places of the keys. -/
structure IndexedCategories (α : Type) where
  values : List (Value α) := []
  places : List (String × Nat) := []

namespace IndexedCategories

/-- The place of the key of a value, where a new one is entered at the end. -/
def enter (c : IndexedCategories α) (v : Value α) : Nat × IndexedCategories α :=
  match c.places.lookup v.key with
  | some i => (i, c)
  | none =>
    let i := c.values.length
    (i, { values := c.values ++ [v], places := (v.key, i) :: c.places })

/-- The values of a list, each key where it is first seen. -/
def ofList (values : List (Value α)) : IndexedCategories α := values.foldl (fun c v => (c.enter v).2) {}

end IndexedCategories

/-- The entry of a range at a place, the entries starting over when they run out. -/
def cycled (range : List (Value α)) (i : Nat) : Value α :=
  if h : range = [] then .null else range.get ⟨i % range.length, Nat.mod_lt i (List.length_pos_iff.mpr h)⟩

/-- An ordinal scale with a range and an index of its own. -/
structure IndexedOrdinal (α : Type) where
  domain : IndexedCategories α
  range : List (Value α)

namespace IndexedOrdinal

/-- An ordinal scale with the categories of a list. -/
def ofList (domain range : List (Value α)) : IndexedOrdinal α := { domain := .ofList domain, range }

/-- The entry for a value, and the scale with the value among its categories. A key that the index does not have is
looked up again as it is entered, as another caller may have entered it in between. -/
def apply (s : IndexedOrdinal α) (v : Value α) : Value α × IndexedOrdinal α :=
  match s.domain.places.lookup v.key with
  | some i => (cycled s.range i, s)
  | none =>
    let (i, domain) := s.domain.enter v
    (cycled s.range i, { s with domain })

end IndexedOrdinal

end VisualEncoding
