import VisualEncoding.Value.Basic

/-!
# Values as numbers

The number that a value stands for is never undefined, and a number that is not undefined stands for itself.
-/

namespace VisualEncoding.Value

variable {α : Type} [Scalar α]

/-- The place of a value on an axis of numbers, or of time. -/
def place? (isTime : Bool) (v : Value α) : Option α :=
  if isTime then v.toInstant?.map fun t => Scalar.ofInt t.millis else v.toNumber?

/-- A number that is not undefined stands for itself. -/
theorem toNumber?_number {x : α} (h : Scalar.isNaN x = false) :
    (Value.number x).toNumber? = some x := by
  unfold toNumber?
  dsimp only
  rw [Option.filter_some, h]
  rfl

/-- What is asked of the number that a value stands for is asked of the number itself. -/
theorem map_toNumber?_number {x : α} (h : Scalar.isNaN x = false) (f : α → Value α) :
    ((Value.number x).toNumber?.map f).getD .null = f x := by
  rw [toNumber?_number h]
  rfl

theorem isNaN_of_toNumber? {v : Value α} {x : α} (h : v.toNumber? = some x) :
    Scalar.isNaN x = false := by
  obtain ⟨-, hdefined⟩ := Option.filter_eq_some_iff.mp h
  rwa [Bool.not_eq_true'] at hdefined

end VisualEncoding.Value
