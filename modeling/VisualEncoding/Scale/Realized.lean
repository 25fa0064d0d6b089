import VisualEncoding.Color.SharedTables
import VisualEncoding.Scale.Band
import VisualEncoding.Scale.Continuous
import VisualEncoding.Scale.Ordinal

/-!
# Realized scales

A realized scale maps values to values. Ordinal scales remember the categories that they meet: those
with a range of their own share a growing domain with their copies, those without share a color table
with all charts of a session. That memory is the `Session`, and a scale refers to its part of it.

The specification guards tables and domains by locks (§5). Here a session is one state that is handed from
step to step, so the steps of charts that share it happen one after another. `apply`, `domain`, `bandwidth?`
and `ticks` are the introspection of §4.5.
-/

namespace VisualEncoding

/-- A scale of any family. -/
inductive Scale (α : Type) [Scalar α] where
  | continuous (s : Continuous α)
  | band (s : Band α)
  /-- An ordinal scale with a range, by the number of its growing domain. -/
  | ordinal (id : Nat)
  /-- An ordinal scale without a range, by the number of its color table. -/
  | colors (table : Nat) (domain : Categories α)
  | binOrdinal (s : BinOrdinal α)
  | quantize (s : Quantize α)
  | quantile (s : Quantile α)
  | threshold (s : Threshold α)

/-- What the scales of a session share. -/
structure Session (α : Type) [Scalar α] where
  colors : SharedTables := {}
  ordinals : Array (Ordinal α) := #[]

namespace Session

variable {α : Type} [Scalar α]

/-- A session without scales. -/
def ofSchemes (schemes : SchemeRegistry) : Session α := { colors := { schemes } }

/-- The ordinal scale with a number. -/
def ordinal (c : Session α) (id : Nat) : Ordinal α :=
  c.ordinals[id]?.getD { domain := .empty, range := [] }

/-- Does a step on the color table with a number. -/
def onTable {β : Type} (id : Nat) (step : ColorTable → β × ColorTable) : StateM (Session α) β :=
  fun c =>
    let (answer, colors) := c.colors.update id step
    (answer, { c with colors })

/-- Does a step on the ordinal scale with a number. -/
def onOrdinal {β : Type} (id : Nat) (step : Ordinal α → β × Ordinal α) : StateM (Session α) β :=
  fun c =>
    let (answer, o) := step (c.ordinal id)
    (answer, { c with ordinals := c.ordinals.setIfInBounds id o })

/-- The number of the color table for a scheme and group. -/
def tableFor (scheme group : Option String) : StateM (Session α) Nat := fun c =>
  let (id, colors) := c.colors.tableFor scheme group
  (id, { c with colors })

/-- Takes in an ordinal scale and gives it a number. -/
def addOrdinal (o : Ordinal α) : StateM (Session α) Nat := fun c =>
  (c.ordinals.size, { c with ordinals := c.ordinals.push o })

end Session

namespace Scale

variable {α : Type} [Scalar α]

/-- The family of a scale. -/
def family : Scale α → ScaleFamily
  | .continuous s => s.family
  | .band s => s.family
  | .ordinal _ | .colors _ _ => .ordinal
  | .binOrdinal _ => .binOrdinal
  | .quantize _ => .quantize
  | .quantile _ => .quantile
  | .threshold _ => .threshold

/-- The value for a value; a value without one is mapped to the missing value. -/
def apply (s : Scale α) (v : Value α) : StateM (Session α) (Value α) :=
  match s with
  | .continuous s => pure (s.apply v)
  | .band s => pure (s.apply v)
  | .ordinal id => Session.onOrdinal id fun o => o.apply v
  | .colors table _ => Session.onTable table fun t => t.valueFor v
  | .binOrdinal s => pure (s.apply v)
  | .quantize s => pure (s.apply v)
  | .quantile s => pure (s.apply v)
  | .threshold s => pure (s.apply v)

/-- The domain as it stands. -/
def domain (s : Scale α) (c : Session α) : List (Value α) :=
  match s with
  | .continuous s => s.domainValues
  | .band s => s.domain.values
  | .ordinal id => (c.ordinal id).domain.values
  | .colors _ domain => domain.values
  | .binOrdinal s => s.boundaries.map .number
  | .quantize s => s.domain
  | .quantile s => s.domain
  | .threshold s => s.domain

/-- The range. -/
def range (s : Scale α) (c : Session α) : List (Value α) :=
  match s with
  | .continuous s => s.range.values
  | .band s => s.range
  | .ordinal id => (c.ordinal id).range
  | .colors table _ => (c.colors.table table).palette.map .string
  | .binOrdinal s => s.range
  | .quantize s => s.range
  | .quantile s => s.range
  | .threshold s => s.range

/-- The width of a band, for scales that have bands. -/
def bandwidth? : Scale α → Option α
  | .band s => some s.layout.bandwidth
  | _ => none

/-- Values of the domain to put ticks at, about `count` where there is a choice. -/
def ticks (s : Scale α) (c : Session α) (count : Nat) :
    Except Calendar.IntervalFault (List (Value α)) :=
  match s with
  | .continuous s => s.ticks count
  | .quantize s => .ok (s.ticks count)
  | s => .ok (s.domain c)

end Scale

end VisualEncoding
