import VisualEncoding.Decimal.Layout
import VisualEncoding.Scalar.Basic

/-!
# Doubles as scalars

The instance that programs run with: IEEE 754 arithmetic, exact rounding to whole numbers, exact conversions from
and to integers, and the shortest decimal text. Logarithms and powers come from a `MathLibrary`, whose results may
differ in the last digit from platform to platform.
-/

namespace VisualEncoding

/-- The whole part of a double, toward zero. -/
def Decimal.truncateFloat (x : Float) : Int :=
  match Decimal.Exact.ofFloat x with
  | .finite negative mantissa exponent =>
    let whole := mantissa * (powerRatio 2 exponent).1 / (powerRatio 2 exponent).2
    if negative then -(whole : Int) else whole
  | .infinite negative => if negative then -(Nat.pow 2 1024 : Nat) else (Nat.pow 2 1024 : Nat)
  | .notANumber => 0

/-- The whole number nearest to a double, halves away from zero. -/
def Decimal.roundFloat (x : Float) : Int :=
  match Decimal.Exact.ofFloat x with
  | .finite negative mantissa exponent =>
    let whole := roundHalfUp (mantissa * (powerRatio 2 exponent).1) (powerRatio 2 exponent).2
    if negative then -(whole : Int) else whole
  | .infinite negative => if negative then -(Nat.pow 2 1024 : Nat) else (Nat.pow 2 1024 : Nat)
  | .notANumber => 0

/-- The double nearest to an integer. -/
def Decimal.floatOfInt (n : Int) : Float :=
  if n < 0 then -Decimal.nearestRatio n.natAbs 1 else Decimal.nearestRatio n.natAbs 1

/-- A double rounded to a whole number, given how the magnitude of a finite one is rounded. Zero keeps the sign of
what is rounded, and what is not finite stays. -/
def Decimal.wholeFloat (magnitude : Bool → Nat → Nat → Nat) (x : Float) : Float :=
  match Decimal.Exact.ofFloat x with
  | .finite negative mantissa exponent =>
    let whole := magnitude negative (mantissa * (powerRatio 2 exponent).1) (powerRatio 2 exponent).2
    if negative then -nearestRatio whole 1 else nearestRatio whole 1
  | _ => x

/-- The greatest whole number that is not above. -/
def Decimal.floorFloat : Float → Float :=
  wholeFloat fun negative num den => if negative then (num + den - 1) / den else num / den

/-- The least whole number that is not below. -/
def Decimal.ceilFloat : Float → Float :=
  wholeFloat fun negative num den => if negative then num / den else (num + den - 1) / den

/-- The place of a double among all doubles by its bits. Negative ones are counted down from the negative zero, which
stands before zero. -/
def Decimal.bitPlace (x : Float) : Int :=
  let bits := x.toBits.toNat
  if bits < 0x8000000000000000 then bits else 0x7FFFFFFFFFFFFFFF - (bits : Int)

/-- The mathematical functions that a platform has for doubles. Their results are near the exact ones; how they are
rounded is up to the platform. -/
structure MathLibrary where
  log10 : Float → Float
  log2 : Float → Float
  ln : Float → Float
  pow : Float → Float → Float
  /-- The base of the natural logarithm. -/
  euler : Float

/-- The functions of the platform that a program runs on. -/
def MathLibrary.native : MathLibrary where
  log10 := Float.log10
  log2 := Float.log2
  ln := Float.log
  pow := Float.pow
  euler := Float.exp 1.0

/-- Doubles on a platform. -/
@[reducible] def Scalar.doubles (m : MathLibrary) : Scalar Float where
  decLt := inferInstance
  decLe := inferInstance
  ofInt := Decimal.floatOfInt
  truncate := Decimal.truncateFloat
  floor := Decimal.floorFloat
  ceil := Decimal.ceilFloat
  round := Decimal.wholeFloat fun _ => Decimal.roundHalfUp
  isNaN := Float.isNaN
  isFinite := Float.isFinite
  sortsBefore x y := decide (Decimal.bitPlace x ≤ Decimal.bitPlace y)
  sqrt := Float.sqrt
  log10 := m.log10
  log2 := m.log2
  ln := m.ln
  pow := m.pow
  euler := m.euler
  text := Decimal.Layout.plain.text
  ofNumeral?
    | .notANumber => none
    | n => some n.toFloat
  toSingle := Float.toFloat32

instance Scalar.instDouble : Scalar Float := Scalar.doubles .native

end VisualEncoding
