import VisualEncoding.Decimal.Shortest

/-!
# Writing doubles

A `Layout` says where positional layout ends and what is written around the digits; `Layout.text`
writes the shortest digits of a double accordingly. With a fixed number of places the exact binary value
is rounded to them once, a tie going to the even last digit.
-/

namespace VisualEncoding.Decimal

/-- How a double is laid out. -/
structure Layout where
  /-- The least power of ten of the first digit that is still written positionally. -/
  least : Option Int
  /-- The greatest power of ten of the first digit that is still written positionally. -/
  most : Option Int
  /-- Whether a whole number in positional layout ends in `.0`. -/
  point : Bool
  /-- Whether a positive exponent has a sign. -/
  plus : Bool

/-- Plain layout: never an exponent, and no point in a whole number. -/
def Layout.plain : Layout := ⟨none, none, false, false⟩

/-- The layout of numbers in messages: an exponent below `10 ^ -4` and from `10 ^ 16` on. -/
def Layout.message : Layout := ⟨some (-4), some 15, true, false⟩

/-- The digits of a number with the point put after the digit of power zero. -/
def positional (ds : List Char) (top : Int) (point : Bool) : List Char :=
  if top < 0 then '0' :: '.' :: (List.replicate (-top - 1).toNat '0' ++ ds)
  else
    let whole := ds.take (top.toNat + 1)
    let rest := ds.drop (top.toNat + 1)
    let whole := whole ++ List.replicate (top.toNat + 1 - whole.length) '0'
    if rest.isEmpty then (if point then whole ++ ['.', '0'] else whole)
    else whole ++ '.' :: rest

/-- The digits of a number with the point after the first digit, and an exponent. -/
def scientific (ds : List Char) (top : Int) (plus : Bool) : List Char :=
  let mantissa := match ds with
    | d :: r@(_ :: _) => d :: '.' :: r
    | ds => ds
  let sign := if top < 0 then ['-'] else if plus then ['+'] else []
  mantissa ++ 'e' :: (sign ++ Nat.toDigits 10 top.natAbs)

/-- Whether a number whose first digit has power `top` is written positionally. -/
def Layout.isPositional (n : Layout) (top : Int) : Bool :=
  n.least.all (fun l => l ≤ top) && n.most.all (fun m => top ≤ m)

/-- The magnitude `mantissa · 2 ^ exponent` in a layout. -/
def Layout.magnitude (n : Layout) (mantissa : Nat) (exponent : Int) : List Char :=
  if mantissa == 0 then positional ['0'] 0 n.point
  else
    let d := shortest mantissa exponent
    let ds := Nat.toDigits 10 d.digits
    let top := d.exponent + ds.length - 1
    if n.isPositional top then positional ds top n.point else scientific ds top n.plus

/-- The text of a double in a layout. -/
def Layout.text (n : Layout) (x : Float) : String :=
  match Exact.ofFloat x with
  | .finite negative mantissa exponent =>
    String.ofList ((if negative then ['-'] else []) ++ n.magnitude mantissa exponent)
  | .infinite negative => if negative then "-inf" else "inf"
  | .notANumber => "NaN"

/-! ## A fixed number of places -/

/-- `mantissa · 2 ^ exponent` in units of the last of `places` decimal places. -/
def fixedUnits (mantissa : Nat) (exponent : Int) (places : Nat) : Nat :=
  roundHalfEven (mantissa * (powerRatio 2 exponent).1 * Nat.pow 10 places) (powerRatio 2 exponent).2

/-- A count of units of the last of `places` decimal places, with a point before the places. -/
def fixedDigits (units places : Nat) : List Char :=
  let ds := Nat.toDigits 10 units
  let ds := List.replicate (places + 1 - ds.length) '0' ++ ds
  if places == 0 then ds
  else ds.take (ds.length - places) ++ '.' :: ds.drop (ds.length - places)

/-- The text of a double with a fixed number of places. -/
def fixed (x : Float) (places : Nat) : String :=
  match Exact.ofFloat x with
  | .finite negative mantissa exponent =>
    String.ofList ((if negative then ['-'] else []) ++
      fixedDigits (fixedUnits mantissa exponent places) places)
  | .infinite negative => if negative then "-inf" else "inf"
  | .notANumber => "NaN"

end VisualEncoding.Decimal
