import VisualEncoding.Decimal.Numeral
import VisualEncoding.Json.Basic

/-!
# JSON tokens

A text is cut into tokens up to the first place where none can be read; there a `broken` token ends
the list. Whether that is a fault, and which, is for the grammar to say: a token before it may
already be out of place.

A number is read in two steps: its digits, as far as they fit into 64 bits, give a whole number, and
the power of ten then scales it once.

A number that is out of range and a text with half a surrogate pair have the form of a token, but no
value. They are `void` tokens: reading goes on after them where nobody asks for their value.
-/

namespace VisualEncoding.Json

/-- Why a text is not JSON: it is wrong somewhere, or it ends too early. -/
inductive Fault where
  | malformed
  | truncated
  deriving Repr, DecidableEq

/-- The words of a JSON text. -/
inductive Token where
  | openBrace
  | closeBrace
  | openBracket
  | closeBracket
  | comma
  | colon
  /-- A number or one of the words `null`, `true` and `false`. -/
  | atom (value : Json)
  | text (value : String)
  /-- A number or, if `inText` says so, a text that stands for no value. -/
  | void (inText : Bool)
  /-- The rest of the text, which starts no token; `inText` says that it starts with a quote. -/
  | broken (inText : Bool) (fault : Fault)

/-! ## Numbers -/

/-- Divides by `10 ^ 308` as often as it takes to bring a power of ten into range, then scales once.
A result beyond the largest double is refused. -/
def scaleByTen (x : Float) (e : Int) : Option Float :=
  if h : e.natAbs ≤ 308 then
    if 0 ≤ e then
      let y := x * Decimal.nearest 1 e
      if y.isInf then none else some y
    else some (x / Decimal.nearest 1 (-e))
  else if x == 0.0 then some x
  else if 0 ≤ e then none
  else scaleByTen (x / Decimal.nearest 1 308) (e + 308)
termination_by e.natAbs
decreasing_by omega

/-- Appends digits to a whole number as long as it fits into 64 bits; also the number of digits that
were left over. -/
def fillWord (start : Nat) (ds : List Char) : Nat × Nat :=
  ds.foldl
    (fun (n, left) c =>
      let grown := 10 * n + Decimal.digitsValue [c]
      if left == 0 && grown < 0x10000000000000000 then (grown, 0) else (n, left + 1))
    (start, 0)

/-- The double of a numeral with a point or an exponent, or of too many digits for 64 bits. -/
def doubleOf (negative : Bool) (whole places : List Char) (exponent : Int) : Option Float :=
  let (word, left) := fillWord 0 whole
  let (word, dropped) := fillWord word places
  let e := left - (places.length - dropped : Int) + exponent
  let magnitude := scaleByTen (UInt64.ofNat word).toFloat (max (-0x80000000) (min 0x80000000 e))
  magnitude.map fun x => if negative then -x else x

/-- A numeral without point and exponent: an integer if 64 bits hold it. -/
def integerOf (negative : Bool) (whole : List Char) : Option Json :=
  let n := Decimal.digitsValue whole
  if negative then
    if n ≠ 0 ∧ n ≤ 0x8000000000000000 then some (.int (-n)) else (doubleOf true whole [] 0).map .float
  else if n < 0x10000000000000000 then some (.int n)
  else (doubleOf false whole [] 0).map .float

/-- The fault of a place where a digit is missing. -/
def missingDigit (rest : List Char) : Token × List Char :=
  (.broken false (if rest.isEmpty then .truncated else .malformed), [])

/-- Closes a number token; a number out of range has no value. -/
def numberToken (value : Option Json) (rest : List Char) : Token × List Char :=
  match value with
  | some j => (.atom j, rest)
  | none => (.void false, rest)

/-- Reads an exponent and closes the number. -/
def scanExponent (negative : Bool) (whole places : List Char) (rest : List Char) : Token × List Char :=
  let (below, rest) := Decimal.takeSign rest
  let (ds, rest) := Decimal.takeDigits rest
  if ds.isEmpty then missingDigit rest
  else
    let e : Int := if below then -(Decimal.digitsValue ds : Int) else Decimal.digitsValue ds
    numberToken ((doubleOf negative whole places e).map .float) rest

/-- Reads what follows the whole digits of a number. -/
def scanTail (negative : Bool) (whole : List Char) : List Char → Token × List Char
  | '.' :: rest =>
    let (places, rest) := Decimal.takeDigits rest
    if places.isEmpty then missingDigit rest
    else match rest with
      | 'e' :: rest | 'E' :: rest => scanExponent negative whole places rest
      | rest => numberToken ((doubleOf negative whole places 0).map .float) rest
  | 'e' :: rest | 'E' :: rest => scanExponent negative whole [] rest
  | rest => numberToken (integerOf negative whole) rest

/-- Reads a number after its sign; no digit may follow a leading zero. -/
def scanNumber (negative : Bool) (cs : List Char) : Token × List Char :=
  let (whole, rest) := Decimal.takeDigits cs
  match whole with
  | [] => missingDigit rest
  | '0' :: _ :: _ => (.broken false .malformed, [])
  | whole => scanTail negative whole rest

/-! ## Texts and words -/

/-- The value of a hexadecimal digit. -/
def hexDigit? (c : Char) : Option Nat :=
  if c.isDigit then some (c.toNat - '0'.toNat)
  else if 'a' ≤ c && c ≤ 'f' then some (c.toNat - 'a'.toNat + 10)
  else if 'A' ≤ c && c ≤ 'F' then some (c.toNat - 'A'.toNat + 10)
  else none

/-- Reads four hexadecimal digits. A text is truncated if less than four bytes are left of it. -/
def scanHex (cs : List Char) : Except Fault (Nat × List Char) :=
  match (cs.take 4).mapM hexDigit? with
  | some [a, b, c, d] => .ok (((a * 16 + b) * 16 + c) * 16 + d, cs.drop 4)
  | _ =>
    let left := (cs.take 4).foldl (fun n c => n + c.utf8Size) 0
    .error (if left < 4 then .truncated else .malformed)

/-- Reads what follows the first half of a surrogate pair; without a second half right after it the
first one stands for no character. -/
def scanLowSurrogate (high : Nat) (cs : List Char) : Except Fault (Option Char × List Char) :=
  match cs with
  | [] => .error .truncated
  | '\\' :: [] => .error .truncated
  | '\\' :: 'u' :: rest => do
    let (low, rest) ← scanHex rest
    if 0xDC00 ≤ low && low ≤ 0xDFFF then
      .ok (some (Char.ofNat (0x10000 + (high - 0xD800) * 0x400 + (low - 0xDC00))), rest)
    else .ok (none, cs)
  | _ => .ok (none, cs)

/-- Reads an escape after its backslash; half a surrogate pair stands for no character. -/
def scanEscape : List Char → Except Fault (Option Char × List Char)
  | [] => .error .truncated
  | 'u' :: rest => do
    let (n, rest) ← scanHex rest
    if 0xD800 ≤ n && n ≤ 0xDBFF then scanLowSurrogate n rest
    else if 0xDC00 ≤ n && n ≤ 0xDFFF then .ok (none, rest)
    else .ok (some (Char.ofNat n), rest)
  | c :: rest =>
    match [('"', '"'), ('\\', '\\'), ('/', '/'), ('b', '\x08'), ('f', '\x0c'), ('n', '\n'),
        ('r', '\r'), ('t', '\t')].lookup c with
    | some c => .ok (some c, rest)
    | none => .error .malformed

/-- Reads a text after its opening quote. The characters read so far are kept in reverse, and none is
kept once one of them is missing: such a text is malformed whatever breaks it later. -/
def scanText (done : Option (List Char)) (cs : List Char) : Token × List Char :=
  let broken (fault : Fault) : Token × List Char :=
    (.broken true (if done.isSome then fault else .malformed), [])
  match cs with
  | [] => broken .truncated
  | '"' :: rest =>
    match done with
    | some done => (.text (String.ofList done.reverse), rest)
    | none => (.void true, rest)
  | '\\' :: rest =>
    match scanEscape rest with
    | .error fault => broken fault
    | .ok (c?, after) =>
      if _h : after.length < rest.length then
        scanText (match c?, done with
          | some c, some done => some (c :: done)
          | _, _ => none) after
      else broken .malformed
  | c :: rest =>
    if c.toNat < 0x20 then broken .malformed else scanText (done.map (c :: ·)) rest
termination_by cs.length

/-- Reads the rest of a word. -/
def scanWord (value : Json) : List Char → List Char → Token × List Char
  | [], rest => (.atom value, rest)
  | _ :: _, [] => (.broken false .truncated, [])
  | w :: word, c :: rest => if w == c then scanWord value word rest else (.broken false .malformed, [])

/-! ## Cutting a text -/

/-- The blanks that may stand between tokens. -/
def isSpace (c : Char) : Bool := c == ' ' || c == '\n' || c == '\t' || c == '\r'

/-- Reads the token that starts with a character. -/
def scanToken (c : Char) (rest : List Char) : Token × List Char :=
  match c with
  | '\x7b' => (.openBrace, rest)
  | '\x7d' => (.closeBrace, rest)
  | '[' => (.openBracket, rest)
  | ']' => (.closeBracket, rest)
  | ',' => (.comma, rest)
  | ':' => (.colon, rest)
  | '"' => scanText (some []) rest
  | '-' => scanNumber true rest
  | 'n' => scanWord .null "ull".toList rest
  | 't' => scanWord (.bool true) "rue".toList rest
  | 'f' => scanWord (.bool false) "alse".toList rest
  | c => if c.isDigit then scanNumber false (c :: rest) else (.broken false .malformed, [])

/-- The tokens of a text. -/
def tokens (cs : List Char) : List Token :=
  match cs with
  | [] => []
  | c :: rest =>
    if isSpace c then tokens rest
    else
      let (token, after) := scanToken c rest
      token :: (if _h : after.length ≤ rest.length then tokens after else [])
termination_by cs.length

end VisualEncoding.Json
