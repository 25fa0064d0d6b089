/-!
# Sets of characters

A property of characters is kept as the code points at which it changes: where a range of characters
that have it begins, and right after the end of that range. A character has the property if an odd
number of changes has taken place up to it.
-/

namespace VisualEncoding.Text

/-- A set of characters: ascending code points, at which by turns a range of members begins and has
ended. -/
structure CodePoints where
  changes : List Nat
  deriving Repr, DecidableEq

namespace CodePoints

/-- Whether a character is a member. -/
def contains (s : CodePoints) (c : Char) : Bool :=
  (s.changes.takeWhile (· ≤ c.toNat)).length % 2 == 1

end CodePoints

end VisualEncoding.Text
