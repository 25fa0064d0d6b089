import VisualEncoding.Calendar.Pattern
import VisualEncoding.Channel.DataType
import VisualEncoding.Decimal.Layout
import VisualEncoding.Label.NumberPattern
import VisualEncoding.Text.Inspect
import VisualEncoding.Value.Document

/-!
# Labels

A formatter turns values into labels. It is made from a format text: a number pattern, a percentage
such as `.1%`, or a date pattern. A value that a formatter cannot read is shown as it is.

The formats are those of the specification, §6. A number that a directive takes as an integer is rounded and
kept within 64 bits, so that greater numbers are all shown alike.
-/

namespace VisualEncoding.Label

/-- Whether a number is given to a pattern as an integer or as a double. -/
inductive Conversion where
  | integer
  | double
  deriving Repr, DecidableEq

/-- A maker of labels. -/
inductive Formatter where
  | number (format : String) (conversion : Conversion)
  | percent (places : Nat)
  | time (pattern : Calendar.Pattern) (isLocal : Bool)
  | passthrough
  deriving Repr, DecidableEq

/-- Why there is no formatter for a format. -/
inductive FormatFault where
  | noConversion (format : String)
  | datePattern (format : String)
  | pattern (format : String) (conversion : Conversion) (fault : PatternFault)
  deriving Repr, DecidableEq

/-- The name of a conversion in messages. -/
def Conversion.name : Conversion → String
  | .integer => "Integer"
  | .double => "Float"

/-- The text of a fault. Patterns are tried out on zero. -/
def FormatFault.message : FormatFault → String
  | .noConversion format => "Number format '" ++ format ++ "' has no conversion"
  | .datePattern format => "Invalid time format '" ++ format ++ "'"
  | .pattern format conversion fault =>
    "Cannot format 0 with " ++
      Text.inspectRecord "Number" [("format", Text.quoted format), ("conversion", conversion.name)] ++
      ": " ++ fault.name

/-! ## Making formatters -/

/-- The number of places of a percentage format: a point, the places and a percent sign, or the percent
sign alone. -/
def percentPlaces? (format : String) : Option Nat :=
  match format.toList.reverse with
  | '%' :: body =>
    match body.reverse with
    | [] => some 0
    | '.' :: cs =>
      let ds := match cs with
        | '+' :: ds => ds
        | ds => ds
      let n := Decimal.digitsValue ds
      if !ds.isEmpty && ds.all Char.isDigit && n < 0x10000000000000000 then some n else none
    | _ => none
  | _ => none

/-- Whether a character may stand between a percent sign and the letter of a conversion. -/
def isDirectiveMark (c : Char) : Bool := c.isDigit || "-+ #.hlLqjzt".toList.contains c

/-- The conversion of the first directive of a format. -/
def conversionOfChars? : List Char → Option Conversion
  | [] => none
  | '%' :: '%' :: rest => conversionOfChars? rest
  | '%' :: rest =>
    match rest.dropWhile isDirectiveMark with
    | 'd' :: _ => some .integer
    | 'i' :: _ => some .integer
    | _ :: _ => some .double
    | [] => none
  | _ :: rest => conversionOfChars? rest

/-- The conversion of the first directive of a format. -/
def conversionOf? (format : String) : Option Conversion := conversionOfChars? format.toList

/-- The integer of 64 bits that is nearest to an integer. -/
def nearestInt64 (n : Int) : Int := max (-0x8000000000000000) (min 0x7FFFFFFFFFFFFFFF n)

/-- A number as a conversion takes it: an integer is the nearest one that 64 bits hold. -/
def Conversion.operand (conversion : Conversion) (x : Float) : Operand :=
  match conversion with
  | .integer => .integer (nearestInt64 (Decimal.roundFloat x))
  | .double => .double x

/-- The formatter of a number format. A pattern that cannot write zero is refused. -/
def Formatter.forNumbers (format : String) : Except FormatFault Formatter :=
  match percentPlaces? format with
  | some places => .ok (.percent places)
  | none =>
    match conversionOf? format with
    | none => .error (.noConversion format)
    | some conversion =>
      match formatNumber format (conversion.operand 0.0) with
      | .ok _ => .ok (.number format conversion)
      | .error fault => .error (.pattern format conversion fault)

/-- The formatter of a date format. -/
def Formatter.forInstants (format : String) (isLocal : Bool) : Except FormatFault Formatter :=
  match Calendar.Pattern.read? format with
  | some pattern => .ok (.time pattern isLocal)
  | none => .error (.datePattern format)

/-- The formatter of a field with a type; formats mean something for numbers and instants only. -/
def Formatter.forField (format : Option String) (type : Option DataType) (isLocal : Bool) :
    Except FormatFault Formatter :=
  match format, type with
  | none, _ => .ok .passthrough
  | some "", _ => .ok .passthrough
  | some format, some .temporal => forInstants format isLocal
  | some format, some .quantitative => forNumbers format
  | some _, _ => .ok .passthrough

/-! ## Labels -/

/-- The label of a number, if the formatter is for numbers and can write it. -/
def Formatter.numberLabel? (f : Formatter) (x : Float) : Option String :=
  match f with
  | .number format conversion => (formatNumber format (conversion.operand x)).toOption
  | .percent places => some (Decimal.fixed (x * 100.0) places ++ "%")
  | _ => none

/-- The label of a value; a missing one has none. -/
def Formatter.label (f : Formatter) (v : Value Float) : String :=
  if v.isNull then ""
  else match f with
    | .passthrough => v.text
    | .time pattern isLocal =>
      match v.toInstant? with
      | some t => pattern.write (Calendar.Zone.ofLocal isLocal) t
      | none => v.text
    | f => (v.toNumber?.bind f.numberLabel?).getD v.text

end VisualEncoding.Label
