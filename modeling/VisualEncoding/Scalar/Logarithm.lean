import VisualEncoding.Scalar.Basic

/-!
# Logarithms and powers of a base

`reflectedLog` is the logarithm that a log scale measures with. A negative domain is reflected: its
numbers are measured by their magnitude, and the order is kept by negating the result.
-/

namespace VisualEncoding.Scalar

variable {α : Type} [Scalar α]

/-- The logarithm of `x` to a base. The bases 10, 2 and e have functions of their own. -/
def log (base x : α) : α :=
  if base == 10 then log10 x
  else if base == 2 then log2 x
  else if base == euler then ln x
  else ln x / ln base

/-- A base to the power `x`; small whole powers are multiplied out. -/
def exp (base x : α) : α :=
  if isWhole x && decide (abs x ≤ 22) then powInt base (toInt32 x) else pow base x

/-- The logarithm in a domain that is reflected if it is negative. -/
def reflectedLog (base : α) (reflected : Bool) (x : α) : α :=
  if reflected then -log base (-x) else log base x

/-- Undoes `reflectedLog`. -/
def reflectedExp (base : α) (reflected : Bool) (y : α) : α :=
  if reflected then -exp base (-y) else exp base y

end VisualEncoding.Scalar
