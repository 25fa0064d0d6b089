import VisualEncoding.Color.Scheme
import VisualEncoding.Color.Table

/-!
# Shared color tables

Charts that color by the same scheme within the same group share a table, so that a category has one
color in all of them. Tables are numbered in the order of their making. A reset starts afresh: later
requests get new tables, while those who hold an old table keep it.

The specification holds tables by reference and locks the map of them (§5, §6). Here a table is known by its
number, which stays good across a reset.
-/

namespace VisualEncoding

/-- The tables made so far, and which of them are in use for which scheme and group. -/
structure SharedTables where
  schemes : SchemeRegistry := {}
  tables : Array ColorTable := #[]
  current : List ((String × String) × Nat) := []

namespace SharedTables

/-- The group of those who name none. -/
def defaultGroup : String := "GLOBAL"

/-- The scheme and group that a request is about. -/
def requestKey (s : SharedTables) (scheme group : Option String) : String × String :=
  (s.schemes.resolve scheme, group.getD defaultGroup)

/-- The table with a number. -/
def table (s : SharedTables) (id : Nat) : ColorTable := s.tables[id]?.getD { palette := [] }

/-- The number of the table for a scheme and group, which is made if there is none. -/
def tableFor (s : SharedTables) (scheme group : Option String) : Nat × SharedTables :=
  let key := s.requestKey scheme group
  match s.current.lookup key with
  | some id => (id, s)
  | none =>
    let made : ColorTable := { palette := s.schemes.palette scheme }
    (s.tables.size, { s with tables := s.tables.push made, current := (key, s.tables.size) :: s.current })

/-- Replaces a table by what a step makes of it, and gives the answer of the step. -/
def update {β : Type} (s : SharedTables) (id : Nat) (step : ColorTable → β × ColorTable) :
    β × SharedTables :=
  let (answer, t) := step (s.table id)
  (answer, { s with tables := s.tables.setIfInBounds id t })

/-- Takes all tables out of use. -/
def reset (s : SharedTables) : SharedTables := { s with current := [] }

end SharedTables

end VisualEncoding
