import VisualEncoding.Scalar.Double

/-!
# Number patterns

A pattern is a text with directives for one number, such as `%.2f` or `%+5d`. A directive starts with a
percent sign; flags, a width, a precision and a length may follow before the letter of the conversion.
Two percent signs stand for one. A directive takes a number as an integer or as a double, and a pattern
has to use the number exactly once.
-/

namespace VisualEncoding.Label

/-- The conversions by their letters. -/
inductive Letter where
  /-- A decimal integer. -/
  | integer
  /-- A decimal number with places. -/
  | places (upper : Bool)
  /-- A decimal number with an exponent. -/
  | exponent (upper : Bool)
  /-- A percent sign. -/
  | percent
  /-- A conversion that fits no number. -/
  | other
  deriving Repr, DecidableEq

/-- A width or a precision: written, or taken from a number. -/
inductive Extent where
  | written (n : Nat)
  | taken
  deriving Repr, DecidableEq

/-- One directive. -/
structure Directive where
  zeroPadded : Bool := false
  leftAligned : Bool := false
  blankSign : Bool := false
  plusSign : Bool := false
  width : Extent := .written 0
  precision : Extent := .written 6
  letter : Letter := .integer
  deriving Repr, DecidableEq

/-- A part of a pattern. -/
inductive PatternPart where
  | text (c : Char)
  | directive (d : Directive)
  deriving Repr, DecidableEq

/-- Why a number cannot be written by a pattern. -/
inductive PatternFault where
  | malformed
  /-- A directive that does not fit the number. -/
  | wrongKind
  | tooFewNumbers
  /-- A pattern without a directive that uses the number. -/
  | tooManyNumbers
  deriving Repr, DecidableEq

/-- The name of a fault in messages. -/
def PatternFault.name : PatternFault → String
  | .malformed => "ParseError"
  | .wrongKind => "WrongType"
  | .tooFewNumbers => "NotEnoughArgs"
  | .tooManyNumbers => "TooManyArgs"

/-- The number that a pattern writes. -/
inductive Operand where
  | integer (n : Int)
  | double (x : Float)

/-! ## Reading patterns -/

/-- Reads the flags at the start of a directive. -/
def takeFlags (d : Directive) : List Char → Directive × List Char
  | '#' :: cs => takeFlags d cs
  | '0' :: cs => takeFlags { d with zeroPadded := true } cs
  | '-' :: cs => takeFlags { d with leftAligned := true } cs
  | ' ' :: cs => takeFlags { d with blankSign := true } cs
  | '+' :: cs => takeFlags { d with plusSign := true } cs
  | cs => (d, cs)

/-- Reads a width or a precision; none is zero. It is kept in 32 bits, and a negative one is zero. -/
def takeExtent : List Char → Extent × List Char
  | '*' :: cs => (.taken, cs)
  | cs =>
    let (ds, rest) := Decimal.takeDigits cs
    (.written (Int.bmod (Decimal.digitsValue ds) 0x100000000).toNat, rest)

/-- Drops a length, which has no meaning for a number of known size. -/
def dropLength : List Char → List Char
  | 'h' :: 'h' :: cs => cs
  | 'h' :: cs => cs
  | 'l' :: 'l' :: cs => cs
  | 'l' :: cs => cs
  | c :: cs => if "qLjzZt".toList.contains c then cs else c :: cs
  | [] => []

/-- The conversion of a letter. -/
def letter? (c : Char) : Option Letter :=
  [('d', Letter.integer), ('i', .integer), ('f', .places false), ('F', .places true),
   ('e', .exponent false), ('E', .exponent true), ('%', .percent), ('u', .other), ('o', .other),
   ('x', .other), ('X', .other), ('g', .other), ('G', .other), ('c', .other), ('C', .other),
   ('s', .other), ('S', .other), ('p', .other)].lookup c

/-- Reads a directive after its percent sign. -/
def takeDirective? (cs : List Char) : Option (Directive × List Char) :=
  let (d, cs) := takeFlags {} cs
  let (width, cs) := takeExtent cs
  let (precision, cs) := match cs with
    | '.' :: cs => takeExtent cs
    | cs => (d.precision, cs)
  match dropLength cs with
  | c :: rest => (letter? c).map fun letter => ({ d with width, precision, letter }, rest)
  | [] => none

/-- Reads a pattern; none if one of its directives is malformed. -/
def readParts? (cs : List Char) : Option (List PatternPart) :=
  match cs with
  | [] => some []
  | '%' :: rest =>
    match takeDirective? rest with
    | some (d, after) =>
      if _h : after.length < rest.length then (readParts? after).map (.directive d :: ·) else none
    | none => none
  | c :: rest => (readParts? rest).map (.text c :: ·)
termination_by cs.length

/-! ## Writing numbers -/

/-- The sign of a number that is not negative. -/
def Directive.signOf (d : Directive) (negative : Bool) : List Char :=
  if negative then ['-'] else if d.plusSign then ['+'] else if d.blankSign then [' '] else []

/-- A sign and digits filled up to a width, with zeros between them if `zeros` says so. -/
def Directive.fill (d : Directive) (width : Nat) (zeros : Bool) (sign digits : List Char) : List Char :=
  if d.leftAligned then List.rightpad width ' ' (sign ++ digits)
  else if zeros then sign ++ List.leftpad (width - sign.length) '0' digits
  else List.leftpad width ' ' (sign ++ digits)

/-- An integer. -/
def Directive.integerText (d : Directive) (width : Nat) (n : Int) : List Char :=
  d.fill width d.zeroPadded (d.signOf (n < 0)) (Nat.toDigits 10 n.natAbs)

/-- The last `places` decimal digits of a number. -/
def lastDigits (n places : Nat) : List Char :=
  (List.range places).reverse.map fun k => Nat.digitChar (n / Nat.pow 10 k % 10)

/-- The double `10 ^ e` as the real power function gives it; below the least double it is zero. -/
def tenToThe (e : Int) : Float := Float.pow 10.0 (Decimal.floatOfInt e)

/-- A fraction in units of `unit`, rounded. -/
def tailOf (x whole unit : Float) : Nat := Scalar.toCount ((x - whole) * unit).round

/-- A whole part, a point and the last `places` digits of a tail. -/
def pointed (whole : Float) (tail places : Nat) : List Char :=
  (Decimal.Layout.plain.text whole).toList ++ '.' :: lastDigits tail places

/-- The whole part of a double, toward zero. -/
def wholePart (x : Float) : Float := if x < 0 then x.ceil else x.floor

/-- A magnitude with a number of places. The places are rounded by themselves, and a full unit is
carried over. -/
def placesText (x : Float) (places : Nat) : List Char :=
  if places = 0 then (Decimal.Layout.plain.text x.round).toList
  else
    let unit := tenToThe places
    let whole := wholePart x
    let tail := tailOf x whole unit
    if Scalar.toCount unit ≤ tail then pointed (whole + 1) (tail - Scalar.toCount unit) places
    else pointed whole tail places

/-- Carries full units of a tail into the whole part, and a whole part of ten into the exponent, until
the tail is less than a unit. -/
def carryOver : (rounds : Nat) → (mantissa unit whole : Float) → (tail : Nat) → (e : Int) →
    Float × Nat × Int
  | 0, _, _, whole, tail, e => (whole, tail, e)
  | rounds + 1, mantissa, unit, whole, tail, e =>
    if tail < Scalar.toCount unit then (whole, tail, e)
    else
      let whole := whole + 1
      let tail := tail - Scalar.toCount unit
      if whole < 10 then carryOver rounds mantissa unit whole tail e
      else
        let unit := unit / 10
        let mantissa := mantissa / 10
        let whole := wholePart mantissa
        carryOver rounds mantissa unit whole (tailOf mantissa whole unit) (e + 1)

/-- An exponent: its sign and at least two digits. -/
def exponentText (e : Int) : List Char :=
  (if e < 0 then '-' else '+') :: List.leftpad 2 '0' (Nat.toDigits 10 e.natAbs)

/-- A magnitude with one digit before the point and an exponent. -/
def scientificText (x : Float) (places : Nat) (mark : Char) : List Char :=
  let e := Scalar.toInt32 x.log10.floor
  let mantissa := x / tenToThe e
  if places = 0 then
    (Decimal.Layout.plain.text mantissa.round).toList ++ mark :: exponentText e
  else
    let unit := tenToThe places
    let whole := wholePart mantissa
    let (whole, tail, e) := carryOver (places + 2) mantissa unit whole (tailOf mantissa whole unit) e
    pointed whole tail places ++ mark :: exponentText e

/-- The name of a number that is not finite. -/
def notFiniteText (x : Float) (upper : Bool) : List Char :=
  match x.isInf, upper with
  | true, false => "inf".toList
  | true, true => "INF".toList
  | false, false => "nan".toList
  | false, true => "NAN".toList

/-- The sign of a double; a blank wins over a plus. -/
def Directive.doubleSign (d : Directive) (x : Float) : List Char :=
  if x.toBits.toNat / 0x8000000000000000 = 1 then ['-']
  else if d.blankSign then [' ']
  else if d.plusSign then ['+']
  else []

/-- A double; none if the conversion is for integers. -/
def Directive.doubleText? (d : Directive) (width places : Nat) (x : Float) : Option (List Char) :=
  let written (digits : List Char) (upper : Bool) : List Char :=
    let digits := if x.isFinite then digits else notFiniteText x upper
    d.fill width (d.zeroPadded && x.isFinite) (d.doubleSign x) digits
  match d.letter with
  | .places upper => some (written (placesText x.abs places) upper)
  | .exponent upper => some (written (scientificText x.abs places (if upper then 'E' else 'e')) upper)
  | _ => none

/-- A number by a directive with a written width and precision. -/
def Directive.text (d : Directive) (width places : Nat) : Operand → Except PatternFault (List Char)
  | .integer n => if d.letter = .integer then .ok (d.integerText width n) else .error .wrongKind
  | .double x =>
    match d.doubleText? width places x with
    | some cs => .ok cs
    | none => .error .wrongKind

/-- A written width or precision. One that is taken from the number leaves no number to write: a double
is no width, and an integer is used up. -/
def Extent.resolve (e : Extent) (operand : Operand) : Except PatternFault Nat :=
  match e, operand with
  | .written n, _ => .ok n
  | .taken, .double _ => .error .wrongKind
  | .taken, .integer _ => .error .tooFewNumbers

/-- The text of a pattern's parts; `left` is the number while it has not been used. -/
def writeParts : (left : Option Operand) → List PatternPart → Except PatternFault (List Char)
  | none, [] => .ok []
  | some _, [] => .error .tooManyNumbers
  | left, .text c :: rest => return c :: (← writeParts left rest)
  | left, .directive d :: rest =>
    if d.letter = .percent then return '%' :: (← writeParts left rest)
    else
      match left with
      | none => .error .tooFewNumbers
      | some operand => do
        let width ← d.width.resolve operand
        let places ← d.precision.resolve operand
        let cs ← d.text width places operand
        return cs ++ (← writeParts none rest)

/-- A number by a pattern. -/
def formatNumber (format : String) (operand : Operand) : Except PatternFault String :=
  match readParts? format.toList with
  | some parts => (writeParts (some operand) parts).map String.ofList
  | none => .error .malformed

end VisualEncoding.Label
