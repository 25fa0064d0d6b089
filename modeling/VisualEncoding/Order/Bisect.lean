/-!
# Searching ascending thresholds

`countUpTo` halves a window until one position is left. On an ascending list it is the number of
entries that are not above the number searched for.
-/

namespace VisualEncoding.Order

/-- The position that is left of a window of `size` positions from `base` after halving: the upper half
is kept iff its first position satisfies `p`. -/
def narrow (p : Nat → Bool) (base size : Nat) : Nat :=
  if _h : size ≤ 1 then base
  else
    let half := size / 2
    narrow p (if p (base + half) then base + half else base) (size - half)
termination_by size
decreasing_by omega

/-- The number of leading positions below `size` that satisfy `p`, if those that do stand first. -/
def partitionPoint (p : Nat → Bool) (size : Nat) : Nat :=
  if size = 0 then 0
  else
    let base := narrow p 0 size
    if p base then base + 1 else base

/-- The number of entries of an ascending list that are not above `x`. -/
def countUpTo {α : Type} [LE α] [DecidableLE α] (ascending : List α) (x : α) : Nat :=
  let entries := ascending.toArray
  partitionPoint (fun i => entries[i]?.any fun v => decide (v ≤ x)) entries.size

end VisualEncoding.Order
