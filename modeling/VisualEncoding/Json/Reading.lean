import VisualEncoding.Text.Inspect
import VisualEncoding.Scalar.Double
import VisualEncoding.Json.Printer

/-!
# Reading typed values from JSON trees

Each reader accepts the trees of one kind and says of any other what it found and what it expected.
A record is read from an object, or from an array that lists its fields in their declared order; its
members are taken in the order they stand in, and the first that does not fit is reported.
-/

namespace VisualEncoding

/-- Why a tree is not of the expected kind. -/
inductive Mismatch where
  /-- Another kind of value. -/
  | wrongType (found : Json) (expected : String)
  /-- The right kind of value, but not one of those allowed. -/
  | wrongValue (found : Json) (expected : String)
  | wrongLength (count : Nat) (expected : String)
  | missingField (name : String)
  | duplicateField (name : String)
  | unknownField (name : String) (known : List String)
  | unknownVariant (name : String) (known : List String)
  /-- None of the alternatives of a union fits. -/
  | noVariant (union : String)
  /-- A channel definition that is both a constant and a field. -/
  | fieldAndValue

namespace Json

/-- What a message calls a tree. -/
def described : Json → String
  | .null => "null"
  | .bool b => "boolean \x60" ++ (if b then "true" else "false") ++ "\x60"
  | .int n => "integer \x60" ++ toString n ++ "\x60"
  | .float x => "floating point \x60" ++ numberLayout.text x ++ "\x60"
  | .string s => "string " ++ Text.quoted s
  | .array _ => "sequence"
  | .object _ => "map"

end Json

namespace Mismatch

/-- A name between back quotes. -/
def ticked (name : String) : String := "\x60" ++ name ++ "\x60"

/-- The names one of which is expected. -/
def oneOf : List String → String
  | [] => "nothing"
  | [a] => ticked a
  | [a, b] => ticked a ++ " or " ++ ticked b
  | names => "one of " ++ ", ".intercalate (names.map ticked)

/-- The text of a mismatch. -/
def message : Mismatch → String
  | .wrongType found expected => "invalid type: " ++ found.described ++ ", expected " ++ expected
  | .wrongValue found expected => "invalid value: " ++ found.described ++ ", expected " ++ expected
  | .wrongLength count expected => "invalid length " ++ toString count ++ ", expected " ++ expected
  | .missingField name => "missing field " ++ ticked name
  | .duplicateField name => "duplicate field " ++ ticked name
  | .unknownField name known => "unknown field " ++ ticked name ++ ", expected " ++ oneOf known
  | .unknownVariant name known => "unknown variant " ++ ticked name ++ ", expected " ++ oneOf known
  | .noVariant union => "data did not match any variant of untagged enum " ++ union
  | .fieldAndValue => "channel definition has both 'field' and 'value'"

end Mismatch

namespace Json

/-- A reader of trees. -/
abbrev Reader (β : Type) := Json → Except Mismatch β

/-- A truth value. -/
def readBool : Reader Bool
  | .bool b => .ok b
  | j => .error (.wrongType j "a boolean")

/-- A text. -/
def readString : Reader String
  | .string s => .ok s
  | j => .error (.wrongType j "a string")

/-- A number of any kind. -/
def readFloat : Reader Float
  | .int n => .ok (Decimal.floatOfInt n)
  | .float x => .ok x
  | j => .error (.wrongType j "f64")

/-- An integer from `lo` to `hi`. -/
def readInt (lo hi : Int) (expected : String) : Reader Int
  | .int n => if lo ≤ n ∧ n ≤ hi then .ok n else .error (.wrongValue (.int n) expected)
  | j => .error (.wrongType j expected)

/-- A natural number of 32 bits. -/
def readWord (j : Json) : Except Mismatch Nat := (readInt 0 0xFFFFFFFF "u32" j).map Int.toNat

/-- An integer of 32 bits. -/
def readShort (j : Json) : Except Mismatch Int := readInt (-0x80000000) 0x7FFFFFFF "i32" j

/-- A value that may be left out by writing `null`. -/
def readOptional {β : Type} (read : Reader β) : Reader (Option β)
  | .null => .ok none
  | j => (read j).map some

/-- A list of values of one kind. -/
def readList {β : Type} (read : Reader β) : Reader (List β)
  | .array items => items.mapM read
  | j => .error (.wrongType j "a sequence")

/-- The members of an object. -/
def readMembers : Reader (List (String × Json))
  | .object members => .ok members
  | j => .error (.wrongType j "a map")

/-- One of some named values: its name, or an object with its name and `null`. -/
def readNamed {β : Type} (known : List (String × β)) : Reader β
  | .string name => find name
  | .object [(name, content)] => do
    let b ← find name
    match content with
    | .null => .ok b
    | content => .error (.wrongType content "unit")
  | .object members => .error (.wrongValue (.object members) "map with a single key")
  | j => .error (.wrongType j "string or map")
where
  /-- The value of a name. -/
  find (name : String) : Except Mismatch β :=
    match known.lookup name with
    | some b => .ok b
    | none => .error (.unknownVariant name (known.map Prod.fst))

/-- The fields of a record as written, taken in turn by `take`. An array gives the fields in their
declared order and may stop early; one with more items than fields is refused after its fields have
been taken. -/
def readRecord {β : Type} (expected : String) (fields : List String) (start : β)
    (take : β → String → Json → Except Mismatch β) : Reader β
  | .object members => members.foldlM (fun b (name, j) => take b name j) start
  | .array items => do
    let b ← (fields.zip items).foldlM (fun b (name, j) => take b name j) start
    if fields.length < items.length then
      .error (.wrongLength items.length "fewer elements in array")
    else .ok b
  | j => .error (.wrongType j expected)

/-- A value that a record must have. -/
def required {β : Type} (name : String) : Option β → Except Mismatch β
  | some b => .ok b
  | none => .error (.missingField name)

/-- The first reader that accepts. -/
def readUnion {β : Type} (union : String) (readers : List (Reader β)) : Reader β := fun j =>
  match readers.findSome? fun read => (read j).toOption with
  | some b => .ok b
  | none => .error (.noVariant union)

/-- A member that is written only if it is set. -/
def optionalMember {β : Type} (name : String) (write : β → Json) (value : Option β) :
    List (String × Json) :=
  match value with
  | some b => [(name, write b)]
  | none => []

end Json

end VisualEncoding
