import VisualEncoding.Color.Argument

/-!
# Formulas

A coordinate of a color that is derived from another one is a number, a variable or a calculation such
as `calc(r + 10)` or `calc((h + 30) * 2)`. A calculation has one operator between two operands; an operand
that is a calculation again stands in parentheses.
-/

namespace VisualEncoding.Color

/-- The value of a variable, in any case of its ASCII letters, or of a number. -/
def simple? (scope : List (String × Float32)) (cs : List Char) : Option Float32 :=
  (scope.find? fun (name, _) => isWord name cs).map Prod.snd <|> number? cs

/-- Applies an operator; nothing is divided by zero, and a result has to be finite. -/
def operate? (operator : Char) (x y : Float32) : Option Float32 :=
  let result? : Option Float32 := match operator with
    | '+' => some (x + y)
    | '-' => some (x - y)
    | '*' => some (x * y)
    | '/' => if y == 0 then none else some (x / y)
    | _ => none
  result?.filter Float32.isFinite

/-- Drops leading spaces. -/
def skipSpaces (cs : List Char) : List Char := cs.dropWhile (· == ' ')

/-- Splits off the text up to the parenthesis that closes the given number of open ones. -/
def takeGroup (depth : Nat) : List Char → List Char × List Char
  | [] => ([], [])
  | c :: rest =>
    if c == ')' && depth ≤ 1 then ([c], rest)
    else
      let depth := if c == '(' then depth + 1 else if c == ')' then depth - 1 else depth
      let (cs, after) := takeGroup depth rest
      (c :: cs, after)

/-- Splits off an operand: a group in parentheses, or a sign and what follows it up to a space, an
operator or a parenthesis. -/
def takeOperand (cs : List Char) : List Char × List Char :=
  match cs with
  | '(' :: _ => takeGroup 0 cs
  | c :: rest =>
    let ends (c : Char) : Bool := " +-*/()".toList.contains c
    let (sign, rest) := if c == '+' || c == '-' then ([c], rest) else ([], cs)
    (sign ++ rest.takeWhile (!ends ·), rest.dropWhile (!ends ·))
  | [] => ([], [])

/-- Cuts a calculation into its operands and the operator between them. -/
def splitCalculation? (cs : List Char) : Option (List Char × Char × List Char) :=
  let (x, rest) := takeOperand (skipSpaces cs)
  match skipSpaces rest with
  | operator :: rest =>
    let (y, rest) := takeOperand (skipSpaces rest)
    if (skipSpaces rest).isEmpty then some (x, operator, y) else none
  | [] => none

/-- The text inside parentheses. -/
def inside? (cs : List Char) : Option (List Char) :=
  match cs with
  | '(' :: rest => if rest.getLast? == some ')' then some rest.dropLast else none
  | _ => none

/-- The value of a calculation in parentheses. -/
def calculate? (scope : List (String × Float32)) (cs : List Char) : Option Float32 := do
  let (x, operator, y) ← splitCalculation? (← inside? cs)
  let operand? (z : List Char) : Option Float32 :=
    simple? scope z <|> if _h : z.length < cs.length then calculate? scope z else none
  operate? operator (← operand? x) (← operand? y)
termination_by cs.length

/-- The value of a formula. -/
def formula? (scope : List (String × Float32)) (cs : List Char) : Option Float32 :=
  simple? scope cs <|> (after? "calc" cs).bind (calculate? scope)

end VisualEncoding.Color
