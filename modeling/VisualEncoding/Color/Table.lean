import VisualEncoding.Value.Basic

/-!
# Color tables

A table gives categories their colors. A category that is looked up for the first time takes the next
color of the palette, which starts over when it runs out; a category keeps its color from then on,
unless it is pinned to another.

This is the table of the specification, §6, without the lock around it (§5): a lookup gives the color together
with the table after it. Of two pinned colors the later one stays.
-/

namespace VisualEncoding

/-- A palette and the colors given out so far, by the keys of their categories in the order of their
first mention. -/
structure ColorTable where
  palette : List String
  assigned : List (String × String) := []
  deriving Repr, DecidableEq, Inhabited

namespace ColorTable

variable {α : Type} [Scalar α]

/-- The color of a key. -/
def color? (t : ColorTable) (key : String) : Option String := t.assigned.lookup key

/-- Puts a color in the place of a key, at the end if the key is new. -/
def assign (key color : String) : List (String × String) → List (String × String)
  | [] => [(key, color)]
  | (k, c) :: rest => if k == key then (key, color) :: rest else (k, c) :: assign key color rest

/-- The color that the next new category takes; none if there is no palette. -/
def nextColor? (t : ColorTable) : Option String :=
  t.palette[t.assigned.length % t.palette.length]?

/-- The color of a key, which takes the next one if it has none; no text if there is no palette. -/
def colorOfKey (t : ColorTable) (key : String) : String × ColorTable :=
  match t.color? key with
  | some color => (color, t)
  | none =>
    match t.nextColor? with
    | some color => (color, { t with assigned := assign key color t.assigned })
    | none => ("", t)

/-- The color of a value. -/
def colorFor (t : ColorTable) (v : Value α) : String × ColorTable := t.colorOfKey v.key

/-- Pins a value to a color. -/
def setColor (t : ColorTable) (v : Value α) (color : String) : ColorTable :=
  { t with assigned := assign v.key color t.assigned }

/-- The number of values with a color. -/
def assignedCount (t : ColorTable) : Nat := t.assigned.length

end ColorTable

end VisualEncoding
