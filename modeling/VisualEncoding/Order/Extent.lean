/-!
# Extents

The first and the last item of a list in an order that is given by its strict comparison.
-/

namespace VisualEncoding.Order

variable {β : Type}

/-- The lowest and the highest of the items seen so far, and one more. -/
def widen (before : β → β → Bool) (ends : β × β) (x : β) : β × β :=
  (if before x ends.1 then x else ends.1, if before ends.2 x then x else ends.2)

/-- The lowest and the highest item; of equals the first stays. -/
def extent? (before : β → β → Bool) : List β → Option (β × β)
  | [] => none
  | x :: rest => some (rest.foldl (widen before) (x, x))

end VisualEncoding.Order
