import VisualEncoding.Text.Cased
import VisualEncoding.Text.LowerRuns

/-!
# Lower case

Names of months, color schemes and interpolation methods are compared in lower case. A character has
one lower case, with two exceptions: the dotted capital I becomes an i and a combining dot, and the
lower case of a sigma depends on whether a word ends in it.
-/

namespace VisualEncoding.Text

/-- The lower case of a character other than the capital sigma. -/
def lowerChar (c : Char) : List Char :=
  if c.toNat == 0x130 then ['i', Char.ofNat 0x307]
  else [((lowerRuns.findSome? fun r => r.lower? c.toNat).map Char.ofNat).getD c]

/-- Whether the first character that is not ignorable is cased. -/
def startsCased (cs : List Char) : Bool :=
  (cs.dropWhile caseIgnorable.contains).head?.any cased.contains

/-- The lower case of a sigma between the characters before it, in reverse, and those after it: the
final form if a word ends here. -/
def lowerSigma (before after : List Char) : Char :=
  if startsCased before && !startsCased after then 'ς' else 'σ'

/-- The lower case of a text, with the characters before it in reverse. -/
def lowerFrom (before : List Char) : List Char → List Char
  | [] => []
  | c :: after =>
    (if c == 'Σ' then [lowerSigma before after] else lowerChar c) ++ lowerFrom (c :: before) after

/-- The lower case of a text. -/
def lower (s : String) : String := String.ofList (lowerFrom [] s.toList)

end VisualEncoding.Text
