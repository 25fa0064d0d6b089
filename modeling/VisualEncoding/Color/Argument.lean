import VisualEncoding.Decimal.Binary32
import VisualEncoding.Color.Model

/-!
# Arguments of color functions

The arguments of a function stand between gaps: blanks with a comma or a slash among them, or blanks
alone. A gap inside parentheses belongs to its argument. An argument is a number, a percentage, an angle
with its unit, or the word `none`.
-/

namespace VisualEncoding

namespace Color

/-! ## Cutting texts -/

/-- What stands before an argument. -/
inductive Gap where
  | blank
  | comma
  | slash
  /-- More marks than one. -/
  | crowded
  deriving Repr, DecidableEq

/-- The gap that some blanks, commas and slashes are. -/
def Gap.ofChars (cs : List Char) : Gap :=
  match cs.filter (· != ' ') with
  | [] => .blank
  | [','] => .comma
  | ['/'] => .slash
  | _ => .crowded

/-- Whether a character belongs to a gap. -/
def isGap (c : Char) : Bool := c == ' ' || c == ',' || c == '/'

/-- Splits off the text before the next gap outside the given number of open parentheses. -/
def takeArgument (depth : Nat) : List Char → List Char × List Char
  | [] => ([], [])
  | c :: rest =>
    if depth == 0 && isGap c then ([], c :: rest)
    else
      let depth := if c == '(' then depth + 1 else if c == ')' then depth - 1 else depth
      let (cs, after) := takeArgument depth rest
      (c :: cs, after)

/-- Nothing is lost between an argument and what follows it. -/
theorem takeArgument_append (depth : Nat) (cs : List Char) :
    (takeArgument depth cs).1 ++ (takeArgument depth cs).2 = cs := by
  induction cs generalizing depth with
  | nil => rfl
  | cons c rest ih =>
    rw [takeArgument]
    split
    · rfl
    · exact congrArg (c :: ·) (ih _)

/-- What follows an argument is no longer than the text. -/
theorem length_takeArgument_le (depth : Nat) (cs : List Char) :
    (takeArgument depth cs).2.length ≤ cs.length := by
  have h := congrArg List.length (takeArgument_append depth cs)
  rw [List.length_append] at h
  omega

/-- A text gets shorter when a gap and an argument are split off. -/
theorem length_afterArgument_lt {cs : List Char} (h : cs ≠ []) :
    (takeArgument 0 (cs.dropWhile isGap)).2.length < cs.length := by
  obtain ⟨c, rest, rfl⟩ := List.exists_cons_of_ne_nil h
  by_cases hc : isGap c
  · rw [List.dropWhile_cons_of_pos hc]
    have h₁ := length_takeArgument_le 0 (rest.dropWhile isGap)
    have h₂ := (List.dropWhile_sublist isGap (l := rest)).length_le
    rw [List.length_cons]
    omega
  · rw [List.dropWhile_cons_of_neg hc, takeArgument, if_neg (by simp [hc]), List.length_cons]
    exact Nat.lt_succ_of_le (length_takeArgument_le _ rest)

/-- The arguments in a text with the gaps before them. A gap at the end stands before an empty one. -/
def splitArguments (cs : List Char) : List (Gap × List Char) :=
  if _h : cs = [] then []
  else
    let next := takeArgument 0 (cs.dropWhile isGap)
    (Gap.ofChars (cs.takeWhile isGap), next.1) :: splitArguments next.2
termination_by cs.length
decreasing_by exact length_afterArgument_lt _h

/-- The text before an ending, in any case of its ASCII letters. -/
def before? (ending : String) (cs : List Char) : Option (List Char) :=
  let n := cs.length - ending.length
  if ending.length ≤ cs.length && (cs.drop n).map Char.toLower == ending.toList then some (cs.take n)
  else none

/-- The text after a beginning, in any case of its ASCII letters. -/
def after? (beginning : String) (cs : List Char) : Option (List Char) :=
  if (cs.take beginning.length).map Char.toLower == beginning.toList then
    some (cs.drop beginning.length)
  else none

/-- Whether a text is a word in lower case, in any case of its ASCII letters. -/
def isWord (word : String) (cs : List Char) : Bool := cs.map Char.toLower == word.toList

/-! ## Reading arguments -/

/-- A finite number. -/
def number? (cs : List Char) : Option Float32 :=
  let (negative, rest) := Decimal.takeSign cs
  ((Decimal.unsigned? negative rest).map Decimal.Numeral.toFloat32).filter Float32.isFinite

/-- A percentage as a share of `whole`, or a number in units of `unit`; `none` is zero. -/
def amount? (whole unit : Float32) (cs : List Char) : Option Float32 :=
  if isWord "none" cs then some 0
  else match before? "%" cs with
    | some cs => (number? cs).map fun x => x / 100 * whole
    | none => (number? cs).map fun x => x / unit

/-- An angle in degrees; `none` is zero. -/
def angle? (cs : List Char) : Option Float32 :=
  if isWord "none" cs then some 0
  else match before? "deg" cs, before? "grad" cs, before? "rad" cs, before? "turn" cs with
    | some cs, _, _, _ => number? cs
    | none, some cs, _, _ => (number? cs).map fun x => x * 360 / 400
    | none, none, some cs, _ => (number? cs).map fun x => x * 57.2957795130823208767981548141051703
    | none, none, none, some cs => (number? cs).map fun x => x * 360
    | none, none, none, none => number? cs

end Color

/-- Reads a coordinate. -/
def Measure.read? : Measure → List Char → Option Float32
  | .channel => Color.amount? 1 255
  | .share => Color.amount? 1 1
  | .hue => Color.angle?
  | .axis whole => Color.amount? whole 1

end VisualEncoding
