import VisualEncoding.Scalar.Logarithm
import VisualEncoding.Ticks.Linear

/-!
# Ticks of a logarithmic interval

An interval that spans few powers of a whole base shows every whole multiple of each power below the
next one; a longer one shows powers only. Negative intervals are the mirror image of positive ones.
-/

namespace VisualEncoding.Ticks

variable {α : Type} [Scalar α]

/-- An interval with its ends moved outward to whole powers of the base. -/
def niceLog (start stop base : α) : α × α :=
  let reflected := decide (Scalar.least start stop < 0)
  let floor (x : α) : α := Scalar.reflectedExp base reflected (Scalar.floor (Scalar.reflectedLog base reflected x))
  let ceil (x : α) : α := Scalar.reflectedExp base reflected (Scalar.ceil (Scalar.reflectedLog base reflected x))
  if stop < start then (ceil start, floor stop) else (floor start, ceil stop)

/-- The numbers `value i, value (i + 1), …` that lie from `lo` to `hi`, `n` of them looked at, put in
reverse before `found`. The search ends at the first number beyond `hi`; the flag tells that it did. -/
def scanUpTo (lo hi : α) (value : Nat → α) : (n i : Nat) → (found : List α) → List α × Bool
  | 0, _, found => (found, false)
  | n + 1, i, found =>
    let t := value i
    if t < lo then scanUpTo lo hi value n (i + 1) found
    else if hi < t then (found, true)
    else scanUpTo lo hi value n (i + 1) (t :: found)

/-- `scanUpTo` over `n` rows of `width` numbers, until one lies beyond `hi`. -/
def scanRows (lo hi : α) (value : Nat → Nat → α) (width : Nat) : (n row : Nat) → (found : List α) → List α
  | 0, _, found => found
  | n + 1, row, found =>
    match scanUpTo lo hi (value row) width 0 found with
    | (found, true) => found
    | (found, false) => scanRows lo hi value width n (row + 1) found

/-- `k` times the power `e` of the base. -/
def multiple (base : α) (k : Nat) (e : Int) : α :=
  if e < 0 then Scalar.ofInt k / Scalar.exp base (-Scalar.ofInt e)
  else Scalar.ofInt k * Scalar.exp base (Scalar.ofInt e)

/-- `-k` times the power `-e` of the base. -/
def mirroredMultiple (base : α) (k : Nat) (e : Int) : α :=
  if 0 < e then -Scalar.ofInt k / Scalar.exp base (Scalar.ofInt e)
  else -Scalar.ofInt k * Scalar.exp base (-Scalar.ofInt e)

/-- The whole multiples of powers of the base from `lo` to `hi`, ascending; `i` and `j` are the
logarithms of the ends. -/
def multiplesWithin (lo hi base i j : α) : List α :=
  let first := Scalar.toInt32 (Scalar.floor i)
  let rows := (Scalar.toInt32 (Scalar.ceil j) - first + 1).toNat
  let width := (Scalar.toInt32 base - 1).toNat
  let value (row column : Nat) : α :=
    if 0 < lo then multiple base (column + 1) (first + row)
    else mirroredMultiple base (width - column) (first + row)
  (scanRows lo hi value width rows 0 []).reverse

/-- The ticks of an ascending interval on a log scale with the given base. -/
def logAscending (lo hi base : α) (count : Nat) : List α :=
  let reflected := decide (lo < 0)
  let i := Scalar.reflectedLog base reflected lo
  let j := Scalar.reflectedLog base reflected hi
  if !Scalar.isFinite i || !Scalar.isFinite j then []
  else if Scalar.isWhole base && decide (j - i < Scalar.ofInt count) then
    let ticks := multiplesWithin lo hi base i j
    if ticks.length * 2 < count then linear lo hi count else ticks
  else
    let powers := max 1 (min count (Scalar.toCount (Scalar.floor (j - i))))
    (linear i j powers).map (Scalar.reflectedExp base reflected)

/-- The ticks of an interval on a log scale, from `start` to `stop`. -/
def log (start stop base : α) (count : Nat) : List α :=
  if count = 0 || !Scalar.isFinite start || !Scalar.isFinite stop then []
  else if stop < start then (logAscending stop start base count).reverse
  else logAscending start stop base count

end VisualEncoding.Ticks
