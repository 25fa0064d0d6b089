import VisualEncoding.Decimal.Layout
import VisualEncoding.Json.Basic

/-!
# Writing JSON text

`compact` writes a tree on one line without blanks, `pretty` with two blanks of indentation per level.
-/

namespace VisualEncoding.Json

/-- The layout of doubles in JSON: positional from `10 ^ -5` to below `10 ^ 16`, always with a point or
an exponent, and the exponent with its sign. -/
def numberLayout : Decimal.Layout := ⟨some (-5), some 15, true, true⟩

/-- One character of a text: quotes, backslashes and controls are escaped. -/
def escapedChar (c : Char) : List Char :=
  match [('"', '"'), ('\\', '\\'), ('\x08', 'b'), ('\x0c', 'f'), ('\n', 'n'), ('\r', 'r'),
      ('\t', 't')].lookup c with
  | some e => ['\\', e]
  | none =>
    if c.toNat < 0x20 then
      '\\' :: 'u' :: '0' :: '0' :: Nat.digitChar (c.toNat / 16) :: [Nat.digitChar (c.toNat % 16)]
    else [c]

/-- A text between quotes. -/
def quotedText (s : String) : String :=
  String.ofList ('"' :: s.toList.flatMap escapedChar ++ ['"'])

mutual

/-- The text of a tree without blanks. -/
def compact : Json → String
  | .null => "null"
  | .bool b => if b then "true" else "false"
  | .int n => toString n
  | .float x => numberLayout.text x
  | .string s => quotedText s
  | .array items => "[" ++ ",".intercalate (compactItems items) ++ "]"
  | .object members => "\x7b" ++ ",".intercalate (compactMembers members) ++ "\x7d"

/-- The texts of items. -/
def compactItems : List Json → List String
  | [] => []
  | j :: rest => compact j :: compactItems rest

/-- The texts of members. -/
def compactMembers : List (String × Json) → List String
  | [] => []
  | (k, j) :: rest => (quotedText k ++ ":" ++ compact j) :: compactMembers rest

end

/-- A line break and the indentation of a level. -/
def newline (level : Nat) : String := String.ofList ('\n' :: List.replicate (2 * level) ' ')

/-- Entries between brackets, one a line; nothing between the brackets if there are none. -/
def block (level : Nat) (left right : String) (entries : List String) : String :=
  if entries.isEmpty then left ++ right
  else
    left ++ newline (level + 1) ++ ("," ++ newline (level + 1)).intercalate entries ++
      newline level ++ right

mutual

/-- The text of a tree that stands at an indentation level. -/
def prettyAt (level : Nat) : Json → String
  | .array items => block level "[" "]" (prettyItems (level + 1) items)
  | .object members => block level "\x7b" "\x7d" (prettyMembers (level + 1) members)
  | j => compact j

/-- The indented texts of items. -/
def prettyItems (level : Nat) : List Json → List String
  | [] => []
  | j :: rest => prettyAt level j :: prettyItems level rest

/-- The indented texts of members. -/
def prettyMembers (level : Nat) : List (String × Json) → List String
  | [] => []
  | (k, j) :: rest => (quotedText k ++ ": " ++ prettyAt level j) :: prettyMembers level rest

end

/-- The text of a tree with indentation. -/
def pretty (j : Json) : String := prettyAt 0 j

end VisualEncoding.Json
