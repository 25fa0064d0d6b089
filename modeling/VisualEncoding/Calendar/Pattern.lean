import VisualEncoding.Calendar.Timestamp

/-!
# Date patterns

A pattern is a text in which a percent sign and a letter stand for a part of a date or time, as in
`%Y-%m-%d`. Numbers may be told to pad with zeros (`%0e`), blanks (`%_d`) or not at all (`%-d`). A text
with a percent sign that starts no part is no pattern.
-/

namespace VisualEncoding.Calendar

/-- How a number is filled up to its width. -/
inductive Padding where
  | none
  | zeros
  | blanks
  deriving Repr, DecidableEq

/-- The numbers that a pattern can show. -/
inductive NumberPart where
  | year
  | century
  | yearOfCentury
  | weekYear
  | weekYearOfCentury
  | quarter
  | month
  | day
  | dayOfYear
  | weekFromSunday
  | weekFromMonday
  | weekOfWeekYear
  | weekdayFromSunday
  | weekdayFromMonday
  | hour
  | hourOfHalfDay
  | minute
  | second
  | nanosecond
  | epochSecond
  deriving Repr, DecidableEq

/-- How far an offset is written out. -/
inductive OffsetStyle where
  | plain
  | colon
  | seconds
  | hours
  deriving Repr, DecidableEq

/-- One part of a pattern. -/
inductive PatternPart where
  | text (chars : List Char)
  | number (part : NumberPart) (padding : Padding)
  | monthName (short : Bool)
  | weekdayName (short : Bool)
  | halfDay (upper : Bool)
  /-- A point and as few of three, six or nine digits as hold the fraction; nothing if it is zero. -/
  | fraction
  /-- The leading digits of the fraction. -/
  | fractionDigits (count : Nat) (point : Bool)
  | zoneName
  | offset (style : OffsetStyle)
  /-- A whole timestamp with its offset. -/
  | timestamp
  deriving Repr, DecidableEq

/-- A date pattern. -/
abbrev Pattern := List PatternPart

namespace Pattern

open PatternPart

/-! ## Reading -/

/-- A number with leading zeros. -/
def zeros (part : NumberPart) : PatternPart := number part .zeros

/-- A number with leading blanks. -/
def blanks (part : NumberPart) : PatternPart := number part .blanks

/-- A number without padding. -/
def bare (part : NumberPart) : PatternPart := number part .none

/-- Parts with a text between each two. -/
def joined (mark : Char) (parts : List PatternPart) : List PatternPart :=
  parts.intersperse (text [mark])

/-- The parts that a single letter after the percent sign stands for. -/
def letterTable : List (Char × List PatternPart) :=
  let clock := joined ':' [zeros .hour, zeros .minute, zeros .second]
  let slashed := joined '/' [zeros .month, zeros .day, zeros .yearOfCentury]
  [('A', [weekdayName false]), ('B', [monthName false]), ('C', [zeros .century]), ('D', slashed),
   ('F', joined '-' [zeros .year, zeros .month, zeros .day]), ('G', [zeros .weekYear]),
   ('H', [zeros .hour]), ('I', [zeros .hourOfHalfDay]), ('M', [zeros .minute]),
   ('P', [halfDay false]), ('R', joined ':' [zeros .hour, zeros .minute]), ('S', [zeros .second]),
   ('T', clock), ('U', [zeros .weekFromSunday]), ('V', [zeros .weekOfWeekYear]),
   ('W', [zeros .weekFromMonday]), ('X', clock), ('Y', [zeros .year]), ('Z', [zoneName]),
   ('a', [weekdayName true]), ('b', [monthName true]), ('h', [monthName true]),
   ('c', [weekdayName true, text [' '], monthName true, text [' '], blanks .day, text [' ']] ++ clock ++
     [text [' '], zeros .year]),
   ('d', [zeros .day]), ('e', [blanks .day]), ('f', [zeros .nanosecond]),
   ('g', [zeros .weekYearOfCentury]), ('j', [zeros .dayOfYear]), ('k', [blanks .hour]),
   ('l', [blanks .hourOfHalfDay]), ('m', [zeros .month]), ('n', [text ['\n']]), ('p', [halfDay true]),
   ('q', [bare .quarter]),
   ('r', joined ':' [zeros .hourOfHalfDay, zeros .minute, zeros .second] ++ [text [' '], halfDay true]),
   ('s', [bare .epochSecond]), ('t', [text ['\t']]), ('u', [bare .weekdayFromMonday]),
   ('v', [blanks .day, text ['-'], monthName true, text ['-'], zeros .year]),
   ('w', [bare .weekdayFromSunday]), ('x', slashed), ('y', [zeros .yearOfCentury]),
   ('z', [offset .plain]), ('+', [timestamp]), ('%', [text ['%']])]

/-- The parts that the text after a percent sign and a padding sign stands for, and the rest. -/
def parts? : List Char → Option (List PatternPart × List Char)
  | ':' :: ':' :: ':' :: 'z' :: rest => some ([offset .hours], rest)
  | ':' :: ':' :: 'z' :: rest => some ([offset .seconds], rest)
  | ':' :: 'z' :: rest => some ([offset .colon], rest)
  | '.' :: 'f' :: rest => some ([fraction], rest)
  | '.' :: '3' :: 'f' :: rest => some ([fractionDigits 3 true], rest)
  | '.' :: '6' :: 'f' :: rest => some ([fractionDigits 6 true], rest)
  | '.' :: '9' :: 'f' :: rest => some ([fractionDigits 9 true], rest)
  | '3' :: 'f' :: rest => some ([fractionDigits 3 false], rest)
  | '6' :: 'f' :: rest => some ([fractionDigits 6 false], rest)
  | '9' :: 'f' :: rest => some ([fractionDigits 9 false], rest)
  | c :: rest => (letterTable.lookup c).map fun parts => (parts, rest)
  | [] => none

/-- The padding that a sign after the percent sign asks for. -/
def paddingSign? (c : Char) : Option Padding :=
  [('-', Padding.none), ('0', .zeros), ('_', .blanks)].lookup c

/-- The parts that the text after a percent sign stands for, and the rest. A padding sign fits only a
single number. -/
def specifier? : List Char → Option (List PatternPart × List Char)
  | '#' :: 'z' :: rest => some ([offset .plain], rest)
  | c :: rest =>
    match paddingSign? c with
    | none => parts? (c :: rest)
    | some padding =>
      match parts? rest with
      | some ([number part _], rest) => some ([number part padding], rest)
      | _ => none
  | [] => none

/-- Reads a pattern from its characters. -/
def ofChars? (cs : List Char) : Option Pattern :=
  match cs with
  | [] => some []
  | '%' :: rest =>
    match specifier? rest with
    | some (parts, after) =>
      if _h : after.length ≤ rest.length then (ofChars? after).map (parts ++ ·) else none
    | none => none
  | c :: rest => (ofChars? rest).map (text [c] :: ·)
termination_by cs.length

/-- Reads a pattern. -/
def read? (s : String) : Option Pattern := ofChars? s.toList

/-! ## Writing -/

/-- Digits filled up to a width. -/
def fill (padding : Padding) (width : Nat) (ds : List Char) : List Char :=
  match padding with
  | .none => ds
  | .zeros => List.leftpad width '0' ds
  | .blanks => List.leftpad width ' ' ds

/-- An integer filled up to a width; zeros go between the sign and the digits. -/
def signedText (padding : Padding) (width : Nat) (sign : List Char) (n : Nat) : List Char :=
  let ds := Nat.toDigits 10 n
  match padding with
  | .zeros => sign ++ List.leftpad (width - sign.length) '0' ds
  | padding => fill padding width (sign ++ ds)

/-- A year: at least four digits, with a sign outside the years 0 to 9999. -/
def yearText (padding : Padding) (year : Int) : List Char :=
  if 0 ≤ year ∧ year < 10000 then signedText padding 4 [] year.toNat
  else signedText padding 5 [if year < 0 then '-' else '+'] year.natAbs

/-- A number of two digits; of a longer one the tens stand as the character that follows them. -/
def twoDigits (padding : Padding) (n : Nat) : List Char :=
  let ones := Char.ofNat ('0'.toNat + n % 10)
  match n / 10, padding with
  | 0, .none => [ones]
  | 0, .blanks => [' ', ones]
  | tens, _ => [Char.ofNat ('0'.toNat + tens), ones]

/-- The hour on a clock face of twelve hours. -/
def hourOfHalfDay (hour : Nat) : Nat := (hour + 11) % 12 + 1

/-- A number of a clock reading that is `second` seconds from 1970-01-01T00:00:00Z. -/
def numberText (c : ClockReading) (second : Int) (padding : Padding) : NumberPart → List Char
  | .year => yearText padding c.date.year
  | .century => twoDigits padding (c.date.year / 100 % 256).toNat
  | .yearOfCentury => twoDigits padding (c.date.year % 100).toNat
  | .weekYear => yearText padding c.date.mondayWeek.1
  | .weekYearOfCentury => twoDigits padding (c.date.mondayWeek.1 % 100).toNat
  | .quarter => Nat.toDigits 10 c.date.quarter
  | .month => twoDigits padding c.date.month
  | .day => twoDigits padding c.date.day
  | .dayOfYear => fill padding 3 (Nat.toDigits 10 (c.date.ordinal + 1))
  | .weekFromSunday => twoDigits padding (c.date.weekOfYear 0)
  | .weekFromMonday => twoDigits padding (c.date.weekOfYear 1)
  | .weekOfWeekYear => twoDigits padding c.date.mondayWeek.2
  | .weekdayFromSunday => Nat.toDigits 10 c.date.weekday
  | .weekdayFromMonday => Nat.toDigits 10 ((c.date.weekday + 6) % 7 + 1)
  | .hour => twoDigits padding c.hour
  | .hourOfHalfDay => twoDigits padding (hourOfHalfDay c.hour)
  | .minute => twoDigits padding c.minute
  | .second => twoDigits padding c.shownSecond
  | .nanosecond => fill padding 9 (Nat.toDigits 10 c.shownNano)
  | .epochSecond => signedText padding 9 (if second < 0 then ['-'] else []) second.natAbs

/-- A name, or its first three letters. -/
def nameText (names : List String) (i : Nat) (short : Bool) : List Char :=
  let name := (names[i]?.getD "").toList
  if short then name.take 3 else name

/-- An offset in seconds. -/
def offsetText (offset : Int) (style : OffsetStyle) : List Char :=
  let n := offset.natAbs
  let two (k : Nat) : List Char := Timestamp.padded 2 k
  let sign := if offset < 0 then '-' else '+'
  sign :: match style with
    | .plain => two (n / 3600) ++ two (n / 60 % 60)
    | .colon => two (n / 3600) ++ ':' :: two (n / 60 % 60)
    | .seconds => two (n / 3600) ++ ':' :: two (n / 60 % 60) ++ ':' :: two (n % 60)
    | .hours => two (n / 3600)

/-- The text of a part for an instant as a zone's clock shows it. -/
def partText (zone : Zone) (t : Instant) (part : PatternPart) : List Char :=
  let offset := zone.offsetAt t.second
  let c := (t.shift offset).clock
  match part with
  | .text chars => chars
  | .number part padding => numberText c t.second padding part
  | .monthName short => nameText Date.monthNames (c.date.month - 1) short
  | .weekdayName short => nameText Date.weekdayNames c.date.weekday short
  | .halfDay upper =>
    match decide (c.hour < 12), upper with
    | true, true => ['A', 'M']
    | true, false => ['a', 'm']
    | false, true => ['P', 'M']
    | false, false => ['p', 'm']
  | .fraction => Timestamp.fractionText c.shownNano
  | .fractionDigits count point =>
    (if point then ['.'] else []) ++ Timestamp.padded count (c.shownNano / Nat.pow 10 (9 - count))
  | .zoneName => (zone.name.map String.toList).getD (offsetText offset .colon)
  | .offset style => offsetText offset style
  | .timestamp =>
    Timestamp.dateText c.date ++ 'T' :: Timestamp.timeText c ++ offsetText offset .colon

/-- The text of an instant in a pattern. -/
def write (p : Pattern) (zone : Zone) (t : Instant) : String :=
  String.ofList (p.flatMap (partText zone t))

end Pattern

end VisualEncoding.Calendar
