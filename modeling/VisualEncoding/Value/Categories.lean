import VisualEncoding.Value.Basic

/-!
# Categories

A list of values no two of which have the same key, in the order in which they were first seen. It is
the domain of scales that treat values as categories.
-/

namespace VisualEncoding

/-- Values with distinct keys. -/
structure Categories (α : Type) [Scalar α] where
  values : List (Value α)
  keys_nodup : (values.map Value.key).Nodup

namespace Categories

variable {α : Type} [Scalar α]

/-- No values. -/
def empty : Categories α where
  values := []
  keys_nodup := by simp

instance instInhabited : Inhabited (Categories α) := ⟨empty⟩

/-- The keys in order. -/
def keys (c : Categories α) : List String := c.values.map Value.key

/-- The place of a key. -/
def position? (c : Categories α) (key : String) : Option Nat :=
  c.values.findIdx? fun v => v.key == key

/-- Whether a key occurs. -/
def contains (c : Categories α) (key : String) : Bool := c.keys.contains key

/-- Appends a value whose key is new. -/
def insert (c : Categories α) (v : Value α) : Categories α :=
  if h : v.key ∈ c.values.map Value.key then c
  else
    { values := c.values ++ [v]
      keys_nodup := by
        rw [List.map_append, List.nodup_append]
        refine ⟨c.keys_nodup, by simp, ?_⟩
        intro a ha b hb hab
        simp only [List.map_cons, List.map_nil, List.mem_singleton] at hb
        exact h (hb ▸ hab ▸ ha) }

/-- The values of a list, each key where it is first seen. -/
def ofList (values : List (Value α)) : Categories α := values.foldl insert empty

/-- The number of categories. -/
def size (c : Categories α) : Nat := c.values.length

end Categories

end VisualEncoding
