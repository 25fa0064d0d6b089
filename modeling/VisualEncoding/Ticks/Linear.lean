import VisualEncoding.Scalar.Basic

/-!
# Evenly spaced ticks

Ticks are whole multiples of a step that is 1, 2 or 5 times a power of ten. A step below one is
carried as its negated reciprocal (`-10` for a tenth), so that tick values come from a division and
land on the decimals they stand for.
-/

namespace VisualEncoding.Ticks

variable {α : Type} [Scalar α]

/-- The multiples of a step that lie in an interval: the first and the last multiple, and the step as
an increment, which is negative for the reciprocal of a step below one. -/
structure Grid (α : Type) where
  first : α
  last : α
  increment : α

/-- The value of a multiple. -/
def Grid.value (g : Grid α) (i : α) : α :=
  if g.increment < 0 then i / -g.increment else i * g.increment

/-- The factor 1, 2, 5 or 10 that comes closest, by ratio, to a number from 1 to 10. -/
def stepFactor (ratio : α) : α :=
  if Scalar.sqrt 50 ≤ ratio then 10
  else if Scalar.sqrt 10 ≤ ratio then 5
  else if Scalar.sqrt 2 ≤ ratio then 2
  else 1

/-- The whole number nearest to `x`, moved up by one if it falls below the interval. -/
def firstIndex (value : α → α) (start x : α) : α :=
  let i := Scalar.round x
  if value i < start then i + 1 else i

/-- The whole number nearest to `x`, moved down by one if it falls above the interval. -/
def lastIndex (value : α → α) (stop x : α) : α :=
  let i := Scalar.round x
  if stop < value i then i - 1 else i

/-- The grid whose step comes closest to cutting an ascending interval into `count` parts. -/
def gridFor (start stop : α) (count : Nat) : Grid α :=
  let step := (stop - start) / Scalar.ofInt count
  let power := Scalar.floor (Scalar.log10 step)
  let factor := stepFactor (step / Scalar.pow 10 power)
  if power < 0 then
    let scale := Scalar.pow 10 (-power) / factor
    { first := firstIndex (· / scale) start (start * scale)
      last := lastIndex (· / scale) stop (stop * scale)
      increment := -scale }
  else
    let scale := Scalar.pow 10 power * factor
    { first := firstIndex (· * scale) start (start / scale)
      last := lastIndex (· * scale) stop (stop / scale)
      increment := scale }

/-- The grid of an ascending interval; where a single part leaves no multiple inside, two parts are
tried. -/
def grid (start stop : α) (count : Nat) : Grid α :=
  let g := gridFor start stop count
  if count = 1 ∧ g.last < g.first then gridFor start stop 2 else g

/-- The step of an ascending interval as an increment. -/
def increment (start stop : α) (count : Nat) : α := (grid start stop count).increment

/-- The step of an interval, with the sign of its direction. -/
def step (start stop : α) (count : Nat) : α :=
  let size (inc : α) : α := if inc < 0 then 1 / -inc else inc
  if stop < start then -size (increment stop start count) else size (increment start stop count)

/-- The number of multiples of a grid. Where there is no end to them none are listed. -/
def Grid.count (g : Grid α) : Nat :=
  let span := g.last - g.first
  if g.first ≤ g.last ∧ (Scalar.isFinite span || Scalar.isNaN span) then (Scalar.truncate span).toNat + 1
  else 0

/-- The ticks of a grid, ascending. -/
def Grid.ascending (g : Grid α) : List α :=
  (List.range g.count).map fun k : Nat => g.value (g.first + Scalar.ofInt k)

/-- The ticks of a grid, descending. -/
def Grid.descending (g : Grid α) : List α :=
  (List.range g.count).map fun k : Nat => g.value (g.last - Scalar.ofInt k)

/-- About `count` ticks in an interval, from `start` to `stop`. -/
def linear (start stop : α) (count : Nat) : List α :=
  if count = 0 || !Scalar.isFinite start || !Scalar.isFinite stop then []
  else if start == stop then [start]
  else if stop < start then (grid stop start count).descending
  else (grid start stop count).ascending

/-- Moves the ends of an ascending interval outward to multiples of its own step until the step stays
the same; gives up when the step is no number or after `rounds` rounds. -/
def settle (count : Nat) : (rounds : Nat) → (previous : Option α) → (lo hi : α) → Option (α × α)
  | 0, _, _, _ => none
  | rounds + 1, previous, lo, hi =>
    let step := increment lo hi count
    if !Scalar.isFinite step || step == 0 then none
    else if previous.any (· == step) then some (lo, hi)
    else if 0 < step then
      settle count rounds (some step) (Scalar.floor (lo / step) * step) (Scalar.ceil (hi / step) * step)
    else
      settle count rounds (some step) (Scalar.ceil (lo * step) / step) (Scalar.floor (hi * step) / step)

/-- The number of rounds in which the step has to settle. -/
def settlingRounds : Nat := 10

/-- An interval with its ends moved outward to ticks; one whose step does not settle stays. -/
def niceLinear (start stop : α) (count : Nat) : α × α :=
  let reversed := decide (stop < start)
  let (lo, hi) := if reversed then (stop, start) else (start, stop)
  if !Scalar.isFinite lo || !Scalar.isFinite hi || lo == hi then (start, stop)
  else match settle count settlingRounds none lo hi with
    | some (lo, hi) => if reversed then (hi, lo) else (lo, hi)
    | none => (start, stop)

/-- The number of ticks asked for where none is named. -/
def defaultCount : Nat := 10

end VisualEncoding.Ticks
