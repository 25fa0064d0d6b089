/-!
# JSON trees

A tree keeps its members in order, because the printed order of a definition is part of an answer.
`canonical` is the order-free form of a tree that was read from a text: keys ascend, and of members
with one key the last stays.
-/

namespace VisualEncoding

/-- A JSON tree. Numbers written without point and exponent are integers, all others doubles. -/
inductive Json where
  | null
  | bool (value : Bool)
  | int (value : Int)
  | float (value : Float)
  | string (value : String)
  | array (items : List Json)
  | object (members : List (String × Json))
  deriving BEq, Repr, Inhabited

namespace Json

/-- A double as JSON; undefined and infinite numbers have no numeral and become `null`. -/
def ofFloat (x : Float) : Json := if x.isFinite then .float x else .null

/-- Puts a member into members with ascending keys, in place of one with the same key. -/
def insertMember (m : String × Json) : List (String × Json) → List (String × Json)
  | [] => [m]
  | n :: rest =>
    if m.1 < n.1 then m :: n :: rest
    else if m.1 == n.1 then m :: rest
    else n :: insertMember m rest

/-- Members with ascending keys; of members with one key the last stays. -/
def sortMembers (members : List (String × Json)) : List (String × Json) :=
  members.foldl (fun sorted m => insertMember m sorted) []

/-- An object from members in any order. -/
def ofMembers (members : List (String × Json)) : Json := .object (sortMembers members)

mutual

/-- The tree with the members of every object in ascending order of their keys. -/
def canonical : Json → Json
  | .array items => .array (canonicalItems items)
  | .object members => ofMembers (canonicalMembers members)
  | j => j

/-- `canonical` of every item. -/
def canonicalItems : List Json → List Json
  | [] => []
  | j :: rest => canonical j :: canonicalItems rest

/-- `canonical` of the value of every member. -/
def canonicalMembers : List (String × Json) → List (String × Json)
  | [] => []
  | (k, j) :: rest => (k, canonical j) :: canonicalMembers rest

end

/-- The value of a member of an object. -/
def get? (key : String) : Json → Option Json
  | .object members => members.lookup key
  | _ => none

end Json

end VisualEncoding
