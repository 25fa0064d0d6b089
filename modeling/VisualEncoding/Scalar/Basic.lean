import VisualEncoding.Decimal.Numeral

/-!
# Scalars

Scales, ticks, domains and data values are written over any type of numbers with the operations of
`Scalar`: ordered field operations, rounding to whole numbers, logarithms and powers, and a text.
Programs run at doubles (`Scalar.Double`); a theorem about exact arithmetic speaks of the same
definitions at an exact type. Comparisons are decidable relations that no law is assumed of, so that
undefined numbers, which compare with nothing, are covered.
-/

namespace VisualEncoding

/-- The number operations that scales, domains and keys are built from. -/
class Scalar (α : Type) extends Add α, Sub α, Mul α, Div α, Neg α, LT α, LE α, BEq α where
  decLt : DecidableLT α
  decLe : DecidableLE α
  /-- The number nearest to an integer. -/
  ofInt : Int → α
  /-- The whole part, toward zero; zero for an undefined number, and beyond every bound that is ever
  compared with for an infinite one. -/
  truncate : α → Int
  floor : α → α
  ceil : α → α
  /-- The nearest whole number, halves away from zero. -/
  round : α → α
  /-- Undefined: the result of an operation without an answer. -/
  isNaN : α → Bool
  isFinite : α → Bool
  /-- Whether the first number stands before the second, or at its place, in the order in which samples are
  sorted: by size, and zeros by their signs. -/
  sortsBefore : α → α → Bool
  sqrt : α → α
  log10 : α → α
  log2 : α → α
  ln : α → α
  /-- `pow x y` is `x` to the power `y`. -/
  pow : α → α → α
  /-- The base of the natural logarithm. -/
  euler : α
  /-- The decimal text of a number, without an exponent. -/
  text : α → String
  /-- The number that a numeral names, if it names one. -/
  ofNumeral? : Decimal.Numeral → Option α
  /-- The nearest number in single precision, in which colors are blended. -/
  toSingle : α → Float32

attribute [reducible, instance] Scalar.decLt Scalar.decLe

namespace Scalar

variable {α : Type} [Scalar α]

instance (priority := low) instOfNat {n : Nat} : OfNat α n := ⟨ofInt n⟩

instance (priority := low) instInhabited : Inhabited α := ⟨ofInt 0⟩

/-- The smaller of two numbers; an undefined one gives way to the other. -/
def least (a b : α) : α :=
  if isNaN a then b else if isNaN b then a else if b < a then b else a

/-- The greater of two numbers; an undefined one gives way to the other. -/
def greatest (a b : α) : α :=
  if isNaN a then b else if isNaN b then a else if a < b then b else a

/-- Moves a number to the nearest end of `[lo, hi]` if it lies outside; an undefined one stays. -/
def clamp (lo hi x : α) : α :=
  let x := if x < lo then lo else x
  if hi < x then hi else x

/-- The magnitude. -/
def abs (x : α) : α := if x < 0 then -x else x

/-- Whether a number is whole. -/
def isWhole (x : α) : Bool := isFinite x && floor x == x

/-- The whole part, kept within a range of integers. -/
def truncateWithin (lo hi : Int) (x : α) : Int := max lo (min hi (truncate x))

/-- The whole part as a signed 64-bit integer. -/
def toInt64 (x : α) : Int := truncateWithin (-0x8000000000000000) 0x7FFFFFFFFFFFFFFF x

/-- The whole part as a signed 32-bit integer. -/
def toInt32 (x : α) : Int := truncateWithin (-0x80000000) 0x7FFFFFFF x

/-- The whole part as a count. -/
def toCount (x : α) : Nat := (truncateWithin 0 0xFFFFFFFFFFFFFFFF x).toNat

/-- `acc · x ^ n` by repeated squaring. -/
def powNatAux (x acc : α) (n : Nat) : α :=
  if h : n < 2 then
    if n = 1 then acc * x else acc
  else powNatAux (x * x) (if n % 2 = 1 then acc * x else acc) (n / 2)
termination_by n
decreasing_by omega

/-- A whole power by repeated squaring; a negative one is the reciprocal of the positive one. -/
def powInt (x : α) (n : Int) : α :=
  if n < 0 then 1 / powNatAux x 1 n.natAbs else powNatAux x 1 n.natAbs

end Scalar

end VisualEncoding
