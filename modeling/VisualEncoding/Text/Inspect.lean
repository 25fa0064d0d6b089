import VisualEncoding.Text.Extending
import VisualEncoding.Text.Invisible

/-!
# Data in messages

A message shows a text between double quotes, with quotes, backslashes and characters that do not print escaped. Some
messages show a piece of data in full: a constructor with its arguments, a record with its fields, a list in brackets.
-/

namespace VisualEncoding.Text

/-- Whether a character stands for itself between quotes: a blank, or one that can be seen by itself. -/
def isPrintable (c : Char) : Bool :=
  c == ' ' || !(extending.contains c || invisible.contains c)

/-- One character between quotes. -/
def quotedChar (c : Char) : List Char :=
  if c == '"' then ['\\', '"']
  else if c == '\\' then ['\\', '\\']
  else if c == '\n' then ['\\', 'n']
  else if c == '\r' then ['\\', 'r']
  else if c == '\t' then ['\\', 't']
  else if c.toNat == 0 then ['\\', '0']
  else if isPrintable c then [c]
  else ['\\', 'u', '\x7b'] ++ Nat.toDigits 16 c.toNat ++ ['\x7d']

/-- A text between double quotes. -/
def quoted (s : String) : String :=
  String.ofList ('"' :: s.toList.flatMap quotedChar ++ ['"'])

/-- A constructor with one argument. -/
def applied (name argument : String) : String := name ++ "(" ++ argument ++ ")"

/-- A value that may be missing. -/
def inspectOption {β : Type} (inspect : β → String) : Option β → String
  | some b => applied "Some" (inspect b)
  | none => "None"

/-- A truth value. -/
def inspectBool (b : Bool) : String := if b then "true" else "false"

/-- A record with its fields. -/
def inspectRecord (name : String) (fields : List (String × String)) : String :=
  name ++ " \x7b " ++ ", ".intercalate (fields.map fun (k, v) => k ++ ": " ++ v) ++ " \x7d"

/-- A list. -/
def inspectList (items : List String) : String := "[" ++ ", ".intercalate items ++ "]"

end VisualEncoding.Text
