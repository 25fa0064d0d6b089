import VisualEncoding.Text.Blank
import VisualEncoding.Color.Function
import VisualEncoding.Color.Names

/-!
# Reading colors

A color is written by name, by hexadecimal digits with or without a hash sign, or as a function such as
`rgb(0, 128, 255)` or `hsl(120deg 50% 50% / 0.5)`. Its opacity counts only while other colors are derived
from it.
-/

namespace VisualEncoding

/-- Why a text is no color. -/
inductive ColorFault where
  | hex
  /-- Wrong arguments of the function with a name. -/
  | arguments (model : String)
  | unknownFunction
  | unknown
  deriving Repr, DecidableEq

/-- The text of a fault. -/
def ColorFault.message : ColorFault → String
  | .hex => "invalid hex format"
  | .arguments model => "invalid " ++ model ++ " format"
  | .unknownFunction => "invalid color function"
  | .unknown => "invalid unknown format"

namespace Color

/-! ## Hexadecimal digits -/

/-- The value of a hexadecimal digit. -/
def hexValue? (c : Char) : Option Nat :=
  if c.isDigit then some (c.toNat - '0'.toNat)
  else if 'a' ≤ c && c ≤ 'f' then some (c.toNat - 'a'.toNat + 10)
  else if 'A' ≤ c && c ≤ 'F' then some (c.toNat - 'A'.toNat + 10)
  else none

/-- A paint from its channels and its opacity as bytes. -/
def paintOfBytes (red green blue opacity : Nat) : Paint :=
  { color := ofBytes red green blue, opacity := (UInt8.ofNat opacity).toFloat32 / 255 }

/-- A paint from one or two digits for each channel; an opacity may follow. -/
def ofHexDigits? : List Nat → Option Paint
  | [r, g, b] => some (paintOfBytes (r * 17) (g * 17) (b * 17) 255)
  | [r, g, b, a] => some (paintOfBytes (r * 17) (g * 17) (b * 17) (a * 17))
  | [r, r', g, g', b, b'] => some (paintOfBytes (r * 16 + r') (g * 16 + g') (b * 16 + b') 255)
  | [r, r', g, g', b, b', a, a'] =>
    some (paintOfBytes (r * 16 + r') (g * 16 + g') (b * 16 + b') (a * 16 + a'))
  | _ => none

/-- A paint from hexadecimal digits. -/
def ofHex? (cs : List Char) : Option Paint := (cs.mapM hexValue?).bind ofHexDigits?

/-! ## All notations -/

/-- A paint by name. -/
def ofWord? (cs : List Char) : Option Paint :=
  (ofName? (String.ofList cs)).map fun color => { color, opacity := 1 }

/-- Reads a function by its name and the text between its parentheses. -/
def ofFunction (readOrigin? : List Char → Option Paint) (name arguments : List Char) :
    Except ColorFault Paint :=
  match ColorModel.functions.lookup (String.ofList ((Text.trim name).map Char.toLower)) with
  | none => .error .unknownFunction
  | some m =>
    match m.read? readOrigin? arguments with
    | some p => .ok p
    | none => .error (.arguments m.name)

/-- Reads a color with its opacity. -/
def readPaint (text : List Char) : Except ColorFault Paint :=
  let cs := Text.trim text
  if isWord "transparent" cs then .ok (paintOfBytes 0 0 0 0)
  else match cs with
    | '#' :: digits => (ofHex? digits).elim (.error .hex) .ok
    | cs =>
      if cs.contains '(' && cs.getLast? == some ')' then
        let readOrigin? (origin : List Char) : Option Paint :=
          if _h : origin.length < text.length then (readPaint origin).toOption else none
        ofFunction readOrigin? (cs.takeWhile (· != '(')) ((cs.dropWhile (· != '(')).tail.dropLast)
      else (ofHex? cs <|> ofWord? cs).elim (.error .unknown) .ok
termination_by text.length

/-- Reads a color. -/
def read (s : String) : Except ColorFault Color := (readPaint s.toList).map Paint.color

end Color

end VisualEncoding
