import VisualEncoding.Color.Formula

/-!
# Color functions

A function gives a color by its coordinates in a model, as in `hsl(120deg 50% 50% / 0.5)`, or derives it
from another color, as in `hsl(from teal calc(h + 90) s l)`. An opacity may come last.
-/

namespace VisualEncoding

/-- A color with an opacity from 0 to 1. -/
structure Paint where
  color : Color
  opacity : Float32
  deriving Repr, BEq, Inhabited

namespace ColorModel

open Color

/-- A color by the texts of its coordinates. -/
def readCoordinates? (m : ColorModel) (x y z : List Char) : Option Color := do
  let ((_, first), (_, second), (_, third)) := m.coordinates
  return m.toColor (← first.read? x, ← second.read? y, ← third.read? z)

/-- The variables that formulas for coordinates may use: the coordinates of a paint and its opacity. -/
def scope (m : ColorModel) (p : Paint) : List (String × Float32) :=
  let ((nameX, first), (nameY, second), (nameZ, third)) := m.coordinates
  let (x, y, z) := m.ofColor p.color
  [(nameX, x * first.unit), (nameY, y * second.unit), (nameZ, z * third.unit), ("alpha", p.opacity)]

/-- A color by formulas for its coordinates. -/
def calculate? (m : ColorModel) (scope : List (String × Float32)) (x y z : List Char) :
    Option Color := do
  let ((_, first), (_, second), (_, third)) := m.coordinates
  let x ← formula? scope x
  let y ← formula? scope y
  let z ← formula? scope z
  return m.toColor (x / first.unit, y / second.unit, z / third.unit)

/-- A paint by coordinates; commas may stand between them, and the opacity follows a comma or a slash. -/
def absolute? (m : ColorModel) : List (Gap × List Char) → Option Paint
  | (.blank, x) :: (before, y) :: (before', z) :: opacity => do
    guard ((before = .blank ∨ before = .comma) ∧ (before' = .blank ∨ before' = .comma))
    let opacity ← match opacity with
      | [] => some 1
      | [(.comma, a)] => amount? 1 1 a
      | [(.slash, a)] => amount? 1 1 a
      | _ => none
    return { color := ← m.readCoordinates? x y z, opacity := clampUnit opacity }
  | _ => none

/-- A paint derived from another one, `readOrigin?` reading that. -/
def relative? (m : ColorModel) (readOrigin? : List Char → Option Paint) :
    List (Gap × List Char) → Option Paint
  | (.blank, origin) :: (.blank, x) :: (.blank, y) :: (.blank, z) :: opacity => do
    let origin ← readOrigin? origin
    let opacity ← match opacity with
      | [] => some origin.opacity
      | [(.slash, a)] => formula? (m.scope origin) a
      | _ => none
    return { color := ← m.calculate? (m.scope origin) x y z, opacity := clampUnit opacity }
  | _ => none

/-- Reads the arguments of a function. -/
def read? (m : ColorModel) (readOrigin? : List Char → Option Paint) (cs : List Char) : Option Paint :=
  let arguments := splitArguments (skipSpaces (skipSpaces cs).reverse).reverse
  match arguments with
  | (.blank, word) :: rest =>
    if isWord "from" word then m.relative? readOrigin? rest else m.absolute? arguments
  | _ => none

end ColorModel

end VisualEncoding
