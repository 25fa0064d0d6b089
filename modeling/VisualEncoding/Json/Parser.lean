import VisualEncoding.Json.Token

/-!
# Reading JSON text

The grammar is a machine over a stack of open arrays and objects. Each token either moves it on or is
a fault; the first fault ends the reading. The machine stops with its stack as it was, so that a
reader who consumes the members of an outermost object one by one sees those that stand before a
fault.

A reader may say of which places it ignores the values. There a value needs only the form of one: it
may be void, and nest as deep as it likes.
-/

namespace VisualEncoding.Json

/-- An array or object that is still open, what it holds in reverse. -/
inductive Frame where
  | items (done : List Json)
  | members (done : List (String × Json)) (key : String)

/-- What has to come next. -/
inductive Goal where
  | value
  | firstItem
  | afterItem
  | firstKey
  | key
  | colon
  | afterMember
  | nothing
  deriving DecidableEq

/-- A reading in progress. -/
structure Reading where
  frames : List Frame
  goal : Goal
  result : Json
  /-- Whether the value that comes next inside open frames is ignored. -/
  ignores : List Frame → Bool

/-- Nothing read yet. -/
def Reading.start (ignores : List Frame → Bool) : Reading :=
  { frames := [], goal := .value, result := .null, ignores }

/-- Arrays and objects may nest this deep. -/
def maxDepth : Nat := 127

/-- Hands a finished value to the innermost of the frames that stay open. -/
def Reading.finish (r : Reading) (value : Json) : List Frame → Reading
  | [] => { r with frames := [], goal := .nothing, result := value }
  | .items done :: frames => { r with frames := .items (value :: done) :: frames, goal := .afterItem }
  | .members done key :: frames =>
    { r with frames := .members ((key, value) :: done) "" :: frames, goal := .afterMember }

/-- Opens an array or object, unless too many are open. -/
def Reading.openFrame (r : Reading) (frame : Frame) (goal : Goal) : Except Fault Reading :=
  if r.frames.length < maxDepth || r.ignores r.frames then
    .ok { r with frames := frame :: r.frames, goal := goal }
  else .error .malformed

/-- Closes the innermost frame. -/
def Reading.close (r : Reading) : Except Fault Reading :=
  match r.frames with
  | .items done :: frames => .ok (r.finish (.array done.reverse) frames)
  | .members done _ :: frames => .ok (r.finish (.object done.reverse) frames)
  | [] => .error .malformed

/-- Takes a key of the innermost object. -/
def Reading.takeKey (r : Reading) (key : String) : Except Fault Reading :=
  match r.frames with
  | .members done _ :: frames => .ok { r with frames := .members done key :: frames, goal := .colon }
  | _ => .error .malformed

/-- Takes a key that is a void text, which an object may have that is ignored itself. -/
def Reading.takeVoidKey (r : Reading) : Except Fault Reading :=
  if r.ignores r.frames.tail then r.takeKey "" else .error .malformed

/-- Starts a value. -/
def Reading.takeValue (r : Reading) : Token → Except Fault Reading
  | .atom j => .ok (r.finish j r.frames)
  | .text s => .ok (r.finish (.string s) r.frames)
  | .void _ => if r.ignores r.frames then .ok (r.finish .null r.frames) else .error .malformed
  | .openBracket => r.openFrame (.items []) .firstItem
  | .openBrace => r.openFrame (.members [] "") .firstKey
  | .broken _ fault => .error fault
  | _ => .error .malformed

/-- One token. -/
def Reading.step (r : Reading) (t : Token) : Except Fault Reading :=
  match r.goal, t with
  | .value, t => r.takeValue t
  | .firstItem, .closeBracket => r.close
  | .firstItem, t => r.takeValue t
  | .afterItem, .comma => .ok { r with goal := .value }
  | .afterItem, .closeBracket => r.close
  | .firstKey, .closeBrace => r.close
  | .firstKey, .text key => r.takeKey key
  | .key, .text key => r.takeKey key
  | .firstKey, .void true => r.takeVoidKey
  | .key, .void true => r.takeVoidKey
  | .firstKey, .broken true fault => .error fault
  | .key, .broken true fault => .error fault
  | .colon, .colon => .ok { r with goal := .value }
  | .afterMember, .comma => .ok { r with goal := .key }
  | .afterMember, .closeBrace => r.close
  | _, _ => .error .malformed

/-- All tokens, up to the first fault; a text that ends before its value does is truncated. -/
def Reading.run (r : Reading) : List Token → Reading × Option Fault
  | [] => (r, if r.goal == .nothing then none else some .truncated)
  | t :: rest =>
    match r.step t with
    | .ok next => next.run rest
    | .error fault => (r, some fault)

/-- Reads a text as a tree, members as written, ignoring the values in some places. -/
def parseIgnoring (ignores : List Frame → Bool) (text : String) : Except Fault Json :=
  match (Reading.start ignores).run (tokens text.toList) with
  | (r, none) => .ok r.result
  | (_, some fault) => .error fault

/-- Reads a text as a tree, members as written. -/
def parse (text : String) : Except Fault Json := parseIgnoring (fun _ => false) text

/-- The members of the outermost object that are complete in a reading, in the order written. -/
def Reading.outerMembers (r : Reading) : List (String × Json) :=
  match r.frames.getLast? with
  | some (.members done _) => done.reverse
  | some (.items _) => []
  | none => match r.result with
    | .object members => members
    | _ => []

end VisualEncoding.Json
