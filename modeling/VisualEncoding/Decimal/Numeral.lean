import VisualEncoding.Text.Blank
import VisualEncoding.Decimal.Binary64

/-!
# Reading numerals

A numeral is an optional sign and either decimal digits with an optional point and exponent, or one
of the words `inf`, `infinity` and `nan` in any case. Blanks around it are dropped.
-/

namespace VisualEncoding.Decimal

/-- What a numeral says. -/
inductive Numeral where
  | finite (negative : Bool) (digits : Nat) (exponent : Int)
  | infinite (negative : Bool)
  | notANumber
  deriving Repr, DecidableEq

/-- The value of a run of decimal digits. -/
def digitsValue (ds : List Char) : Nat :=
  ds.foldl (fun n c => 10 * n + (c.toNat - '0'.toNat)) 0

/-- Splits off a sign; `true` means negative. -/
def takeSign : List Char → Bool × List Char
  | '-' :: r => (true, r)
  | '+' :: r => (false, r)
  | cs => (false, cs)

/-- Splits off the longest run of ASCII digits. -/
def takeDigits (cs : List Char) : List Char × List Char :=
  (cs.takeWhile Char.isDigit, cs.dropWhile Char.isDigit)

/-- The exponent after the digits: nothing, or `e` and a signed run of digits. -/
def exponent? : List Char → Option Int
  | [] => some 0
  | e :: r =>
    if e == 'e' || e == 'E' then
      let (negative, r) := takeSign r
      let (ds, rest) := takeDigits r
      if ds.isEmpty || !rest.isEmpty then none
      else some (if negative then -(digitsValue ds : Int) else digitsValue ds)
    else none

/-- The part of a numeral after its sign. -/
def unsigned? (negative : Bool) (cs : List Char) : Option Numeral :=
  let word := String.ofList (cs.map Char.toLower)
  if word == "inf" || word == "infinity" then some (.infinite negative)
  else if word == "nan" then some .notANumber
  else
    let (whole, rest) := takeDigits cs
    let (places, rest) := match rest with
      | '.' :: r => takeDigits r
      | r => ([], r)
    if whole.isEmpty && places.isEmpty then none
    else (exponent? rest).map fun e => .finite negative (digitsValue (whole ++ places)) (e - places.length)

/-- Reads a numeral, blanks around it dropped. -/
def Numeral.read? (s : String) : Option Numeral :=
  let (negative, cs) := takeSign (Text.trim s.toList)
  unsigned? negative cs

/-- The double nearest to a numeral. -/
def Numeral.toFloat : Numeral → Float
  | .finite negative digits exponent => if negative then -nearest digits exponent else nearest digits exponent
  | .infinite negative => Float.ofBits (if negative then 0xFFF0000000000000 else 0x7FF0000000000000)
  | .notANumber => Float.ofBits 0x7FF8000000000000

end VisualEncoding.Decimal
