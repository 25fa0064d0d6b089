import VisualEncoding.Text.Blank
import VisualEncoding.Decimal.Numeral
import VisualEncoding.Calendar.Zone

/-!
# Timestamps

The written form of an instant is `YYYY-MM-DDThh:mm:ss`, a fraction of three, six or nine digits if
there is one, and `Z`. `read?` takes every spelling of a timestamp that data may hold: one-digit
fields, blanks between fields, a blank in place of the `T`, and any offset. `readAny?` also takes
strict timestamps and dates without an offset, which are read as times at the prime meridian.
-/

namespace VisualEncoding.Calendar

namespace Timestamp

/-! ## Writing -/

/-- A number with leading zeros up to a width. -/
def padded (width n : Nat) : List Char :=
  List.leftpad width '0' (Nat.toDigits 10 n)

/-- A year: four digits, or a sign and at least four digits outside the years 0 to 9999. -/
def yearText (year : Int) : List Char :=
  if 0 ≤ year ∧ year ≤ 9999 then padded 4 year.toNat
  else (if year < 0 then '-' else '+') :: padded 4 year.natAbs

/-- A date. -/
def dateText (d : Date) : List Char :=
  yearText d.year ++ '-' :: padded 2 d.month ++ '-' :: padded 2 d.day

/-- A fraction of a second in as few of three, six or nine digits as hold it; nothing if it is zero. -/
def fractionText (nano : Nat) : List Char :=
  if nano = 0 then []
  else if nano % 1000000 = 0 then '.' :: padded 3 (nano / 1000000)
  else if nano % 1000 = 0 then '.' :: padded 6 (nano / 1000)
  else '.' :: padded 9 nano

/-- A time of day. -/
def timeText (c : ClockReading) : List Char :=
  padded 2 c.hour ++ ':' :: padded 2 c.minute ++ ':' :: padded 2 c.shownSecond ++ fractionText c.shownNano

/-- The written form of an instant. -/
def write (t : Instant) : String :=
  String.ofList (dateText t.clock.date ++ 'T' :: timeText t.clock ++ ['Z'])

/-! ## Reading fields -/

/-- A reader of the start of a text; it gives what it read and the rest. -/
abbrev Reader (β : Type) := List Char → Option (β × List Char)

/-- A number of at least `least` and at most `most` digits. -/
def digits? (least most : Nat) : Reader Nat := fun cs =>
  let ds := (cs.take most).takeWhile Char.isDigit
  if ds.length < least then none else some (Decimal.digitsValue ds, cs.drop ds.length)

/-- A number of any length, but at least one digit. -/
def digitRun? : Reader Nat := fun cs =>
  let (ds, rest) := Decimal.takeDigits cs
  if ds.isEmpty then none else some (Decimal.digitsValue ds, rest)

/-- A given character. -/
def mark? (c : Char) : List Char → Option (List Char)
  | d :: rest => if d == c then some rest else none
  | [] => none

/-- A year: up to four digits, or a sign and any number of digits; blanks may stand before it. -/
def year? : Reader Int := fun cs =>
  match Text.skipBlanks cs with
  | '-' :: rest => (digitRun? rest).map fun (n, rest) => (-(n : Int), rest)
  | '+' :: rest => (digitRun? rest).map fun (n, rest) => ((n : Int), rest)
  | cs => (digits? 1 4 cs).map fun (n, rest) => ((n : Int), rest)

/-- A field of one or two digits; blanks may stand before it. -/
def field? : Reader Nat := fun cs => digits? 1 2 (Text.skipBlanks cs)

/-- A point and the digits of a fraction, in nanoseconds; digits beyond the ninth are dropped. Without
a point the fraction is zero. -/
def fraction? : Reader Nat
  | '.' :: cs =>
    let (ds, rest) := Decimal.takeDigits cs
    if ds.isEmpty then none
    else some (Decimal.digitsValue (ds.take 9) * Nat.pow 10 (9 - (ds.take 9).length), rest)
  | cs => some (0, cs)

/-- The sign of an offset; `true` means west. -/
def offsetSign? : Reader Bool
  | '+' :: rest => some (false, rest)
  | '-' :: rest => some (true, rest)
  | '−' :: rest => some (true, rest)
  | _ => none

/-- An offset of signed hours and minutes in seconds, with `separated` dropping what may stand
between the two. -/
def offset? (separated : List Char → Option (List Char)) : Reader Int :=
  fun cs => do
    let (west, cs) ← offsetSign? cs
    let (hours, cs) ← digits? 2 2 cs
    let cs ← separated cs
    let (minutes, cs) ← digits? 2 2 cs
    if minutes < 60 ∧ hours < 24 then
      let seconds : Int := (hours * 60 + minutes) * 60
      some (if west then -seconds else seconds, cs)
    else none

/-- The letters `UTC` in any case. -/
def utcName? : List Char → Option (List Char)
  | a :: b :: c :: rest =>
    if [a, b, c].map Char.toLower == ['u', 't', 'c'] then some rest else none
  | _ => none

/-- `Z`, or an offset. -/
def zone? (separated : List Char → Option (List Char)) : Reader Int := fun cs =>
  match cs with
  | 'Z' :: rest => some (0, rest)
  | 'z' :: rest => some (0, rest)
  | cs => offset? separated cs

/-- What separates a date from a time. -/
def dateEnd? : List Char → Option (List Char)
  | c :: rest => if c == 'T' || c == 't' || c == ' ' then some rest else none
  | [] => none

/-! ## Reading timestamps -/

/-- A clock reading from its parts; second 60 is the leap second after 59. -/
def reading? (date : Date) (hour minute second nano : Nat) : Option ClockReading :=
  if second = 60 then ClockReading.ofParts? date hour minute 59 (nanosPerSecond + nano)
  else ClockReading.ofParts? date hour minute second nano

/-- A date whose fields a mark separates. -/
def date? (year : Reader Int) (field : Reader Nat) (mark : List Char → Option (List Char)) : Reader Date :=
  fun cs => do
    let (y, cs) ← year cs
    let cs ← mark cs
    let (m, cs) ← field cs
    let cs ← mark cs
    let (d, cs) ← field cs
    let date ← Date.ofParts? y m d
    return (date, cs)

/-- A time of day whose fields a mark separates, on a date. -/
def time? (field : Reader Nat) (mark : List Char → Option (List Char)) (fraction : Reader Nat)
    (date : Date) : Reader ClockReading :=
  fun cs => do
    let (h, cs) ← field cs
    let cs ← mark cs
    let (m, cs) ← field cs
    let cs ← mark cs
    let (s, cs) ← field cs
    let (n, cs) ← fraction cs
    let c ← reading? date h m s n
    return (c, cs)

/-- The instant of a clock reading in a zone with a fixed offset. -/
def atOffset? (c : ClockReading) (offset : Int) : Option Instant :=
  let t := c.toInstant.shift (-offset)
  if t.inRange then some t else none

/-- A mark with blanks before it. -/
def looseMark? (c : Char) (cs : List Char) : Option (List Char) := mark? c (Text.skipBlanks cs)

/-- Drops colons and blanks. -/
def dropSeparators (cs : List Char) : Option (List Char) :=
  some (cs.dropWhile fun c => c == ':' || Text.isBlank c)

/-- Reads a timestamp in any of its spellings. -/
def read? (s : String) : Option Instant := do
  let (date, cs) ← date? year? field? (looseMark? '-') s.toList
  let cs ← dateEnd? cs
  let (c, cs) ← time? field? (looseMark? ':') fraction? date cs
  let cs := Text.skipBlanks cs
  let (offset, cs) ← match utcName? cs with
    | some rest => some (0, rest)
    | none => zone? dropSeparators cs
  if (Text.skipBlanks cs).isEmpty then atOffset? c offset else none

/-- Reads a timestamp with all fields at full width and nothing around them. -/
def readStrict? (s : String) : Option Instant := do
  let four : Reader Int := fun cs => (digits? 4 4 cs).map fun (n, rest) => ((n : Int), rest)
  let (date, cs) ← date? four (digits? 2 2) (mark? '-') s.toList
  let cs ← dateEnd? cs
  let (c, cs) ← time? (digits? 2 2) (mark? ':') fraction? date cs
  let (offset, cs) ← zone? (mark? ':') cs
  if cs.isEmpty then atOffset? c offset else none

/-- Reads a date and a time of day without an offset, `between` taking what stands between them. -/
def readClock? (between : List Char → Option (List Char)) (s : String) : Option Instant := do
  let (date, cs) ← date? year? field? (mark? '-') s.toList
  let cs ← between cs
  let (c, cs) ← time? field? (mark? ':') (fun cs => some (0, cs)) date cs
  if cs.isEmpty then some c.toInstant else none

/-- Reads a date alone, which means its first midnight. -/
def readDate? (s : String) : Option Instant := do
  let (date, cs) ← date? year? field? (mark? '-') s.toList
  if cs.isEmpty then some (ClockReading.startOf date).toInstant else none

/-- Reads a strict timestamp, or a date with or without a time of day. -/
def readAny? (s : String) : Option Instant :=
  readStrict? s <|> readClock? (fun cs => some (Text.skipBlanks cs)) s <|> readClock? (mark? 'T') s <|>
    readDate? s

end Timestamp

end VisualEncoding.Calendar
