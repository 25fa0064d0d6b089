import VisualEncoding.Decimal.Binary64

/-!
# The fewest digits that read back

The decimal numbers that round to a double form an interval around it, closed iff the mantissa is
even. Among them the text of a double shows one with the fewest digits, and of those the nearest.
On each grid of multiples of a power of ten only the two neighbours of the double can qualify, so the
search tries the grids of 1, 2, … 17 digits and takes the first hit.
-/

namespace VisualEncoding.Decimal

/-- A positive decimal number `digits · 10 ^ exponent`. -/
structure Digits where
  digits : Nat
  exponent : Int
  deriving Repr, DecidableEq

/-- The power of ten of the first digit of `num / den`. -/
def leadingPower (num den : Nat) : Int :=
  let guess := Int.ofNat (digitCount num) - Int.ofNat (digitCount den)
  if den * (powerRatio 10 guess).1 ≤ num * (powerRatio 10 guess).2 then guess else guess - 1

/-- The interval that rounds to `mantissa · 2 ^ exponent`, in quarters of a unit in the last place.
Just above a power of two the lower neighbour is only half as far away. -/
def roundingInterval (mantissa : Nat) (exponent : Int) : Nat × Nat :=
  (if mantissa == leastNormal && -1074 < exponent then 4 * mantissa - 1 else 4 * mantissa - 2,
   4 * mantissa + 2)

/-- The multiple of `10 ^ power` that rounds to `mantissa · 2 ^ exponent` and is nearest to it, if
there is one. -/
def gridHit? (mantissa : Nat) (exponent power : Int) : Option Nat :=
  let quarter := (powerRatio 2 (exponent - 2)).1 * (powerRatio 10 power).2
  let step := (powerRatio 2 (exponent - 2)).2 * (powerRatio 10 power).1
  let value := 4 * mantissa * quarter
  let low := (roundingInterval mantissa exponent).1 * quarter
  let high := (roundingInterval mantissa exponent).2 * quarter
  let inside (c : Nat) : Bool :=
    (low < c * step && c * step < high) ||
      (mantissa % 2 == 0 && (c * step == low || c * step == high))
  let below := value / step
  match inside below, inside (below + 1) with
  | true, true => some (roundHalfEven value step)
  | true, false => some below
  | false, true => some (below + 1)
  | false, false => none

/-- Drops trailing zero digits. -/
def Digits.trimmed (d : Digits) : Digits :=
  let kept := (Nat.toDigits 10 d.digits).reverse.dropWhile (· == '0')
  { digits := d.digits / Nat.pow 10 (digitCount d.digits - kept.length)
    exponent := d.exponent + (digitCount d.digits - kept.length) }

/-- The shortest decimal number that rounds to `mantissa · 2 ^ exponent`, for a positive mantissa. -/
def shortest (mantissa : Nat) (exponent : Int) : Digits :=
  let top := leadingPower (mantissa * (powerRatio 2 exponent).1) (powerRatio 2 exponent).2
  let hit := (List.range 17).findSome? fun n =>
    (gridHit? mantissa exponent (top - Int.ofNat n)).map fun c =>
      { digits := c, exponent := top - Int.ofNat n : Digits }
  (hit.getD { digits := mantissa * (powerRatio 2 exponent).1, exponent := 0 }).trimmed

end VisualEncoding.Decimal
