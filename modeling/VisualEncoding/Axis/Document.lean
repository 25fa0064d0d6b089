import VisualEncoding.Value.Document
import VisualEncoding.Axis.Basic

/-!
# Axes in JSON

An axis is an object, or an array that lists its options in order.
-/

namespace VisualEncoding

/-- The sides by name. -/
def AxisOrient.named : List (String × AxisOrient) :=
  [("top", .top), ("bottom", .bottom), ("left", .left), ("right", .right)]

/-- A side as JSON. -/
def AxisOrient.toJson : AxisOrient → Json
  | .top => .string "top"
  | .bottom => .string "bottom"
  | .left => .string "left"
  | .right => .string "right"

/-- The shorthands by name. -/
def LabelShorthand.named : List (String × LabelShorthand) :=
  [("flat", .flat), ("rotate", .rotate), ("auto", .auto)]

/-- A shorthand as JSON. -/
def LabelShorthand.toJson : LabelShorthand → Json
  | .flat => .string "flat"
  | .rotate => .string "rotate"
  | .auto => .string "auto"

namespace LabelStrategy

/-- The strategies, whose name or place in this list may be given. -/
def names : List String := ["flat", "rotate"]

/-- The name of a strategy from its tag. -/
def tagName? : Json → Option String
  | .string s => some s
  | .int n => if n < 0 then none else names[n.toNat]?
  | _ => none

/-- Takes the angle of a rotation. -/
def takeAngle (angle : Option Float) (name : String) (j : Json) : Except Mismatch (Option Float) :=
  match name with
  | "labelAngle" => return some (← Json.readFloat j)
  | _ => return angle

/-- Reads a strategy from its tag and the rest of its object or array. -/
def readTagged (tag : Json) (rest : Json) : Except Mismatch (LabelStrategy Float) := do
  match tagName? tag, rest with
  | some "flat", .array (_ :: _) => throw (.wrongLength 1 "0 elements in sequence")
  | some "flat", _ => return .flat
  | some "rotate", rest =>
    let angle ← Json.readRecord "a rotation" ["labelAngle"] none takeAngle rest
    return .rotate (← Json.required "labelAngle" angle)
  | _, _ => throw (.wrongType tag "variant identifier")

/-- Reads a strategy: an object with its name as a tag, or an array that starts with it. -/
def read : Json.Reader (LabelStrategy Float)
  | .object members =>
    match members.lookup "strategy" with
    | some tag => readTagged tag (.object (members.filter fun m => m.1 != "strategy"))
    | none => .error (.missingField "strategy")
  | .array (tag :: rest) => readTagged tag (.array rest)
  | j => .error (.wrongType j "internally tagged enum LabelOverlapStrategy")

/-- A strategy as JSON. -/
def toJson : LabelStrategy Float → Json
  | .flat => .object [("strategy", .string "flat")]
  | .rotate angle => .object [("strategy", .string "rotate"), ("labelAngle", .ofFloat angle)]

end LabelStrategy

/-- Reads what is asked for about overlapping labels. -/
def LabelOverlap.read : Json.Reader (LabelOverlap Float) :=
  Json.readUnion "LabelOverlap"
    [fun j => (Json.readNamed LabelShorthand.named j).map .shorthand,
     fun j => (LabelStrategy.read j).map .strategy]

/-- What is asked for about overlapping labels as JSON. -/
def LabelOverlap.toJson : LabelOverlap Float → Json
  | .shorthand s => s.toJson
  | .strategy s => s.toJson

namespace AxisConfig

/-- The names of the options in order. -/
def fieldNames : List String :=
  ["format", "labelAngle", "labelFlush", "labelOverlap", "labelPadding", "orient", "tickCount", "ticks",
   "title", "titlePadding", "values"]

/-- Takes one option. -/
def take (axis : AxisConfig Float) (name : String) (j : Json) : Except Mismatch (AxisConfig Float) :=
  let text := Json.readOptional Json.readString
  let number := Json.readOptional Json.readFloat
  let flag := Json.readOptional Json.readBool
  match name with
  | "format" => return { axis with format := ← text j }
  | "labelAngle" => return { axis with labelAngle := ← number j }
  | "labelFlush" => return { axis with labelFlush := ← flag j }
  | "labelOverlap" => return { axis with labelOverlap := ← Json.readOptional LabelOverlap.read j }
  | "labelPadding" => return { axis with labelPadding := ← number j }
  | "orient" =>
    return { axis with orient := ← Json.readOptional (Json.readNamed AxisOrient.named) j }
  | "tickCount" => return { axis with tickCount := ← Json.readOptional Json.readWord j }
  | "ticks" => return { axis with ticks := ← flag j }
  | "title" => return { axis with title := ← text j }
  | "titlePadding" => return { axis with titlePadding := ← number j }
  | "values" => return { axis with values := ← Json.readOptional (Json.readList Value.read) j }
  | _ => return axis

/-- Reads the options of an axis. -/
def read : Json.Reader (AxisConfig Float) := Json.readRecord "axis options" fieldNames {} take

/-- The options of an axis as JSON. -/
def toJson (axis : AxisConfig Float) : Json :=
  let number (name : String) (x : Option Float) := Json.optionalMember name .ofFloat x
  .object <|
    Json.optionalMember "format" .string axis.format ++ number "labelAngle" axis.labelAngle ++
    Json.optionalMember "labelFlush" .bool axis.labelFlush ++
    Json.optionalMember "labelOverlap" LabelOverlap.toJson axis.labelOverlap ++
    number "labelPadding" axis.labelPadding ++
    Json.optionalMember "orient" AxisOrient.toJson axis.orient ++
    Json.optionalMember "tickCount" (fun n : Nat => .int n) axis.tickCount ++
    Json.optionalMember "ticks" .bool axis.ticks ++ Json.optionalMember "title" .string axis.title ++
    number "titlePadding" axis.titlePadding ++
    Json.optionalMember "values" (fun vs => .array (vs.map Value.toJson)) axis.values

end AxisConfig

/-- A complete axis as JSON. -/
def CompleteAxisConfig.toJson (axis : CompleteAxisConfig Float) : Json :=
  .object <|
    Json.optionalMember "format" .string axis.format ++
    [("labelAngle", .ofFloat axis.labelAngle), ("labelFlush", .bool axis.labelFlush),
     ("labelOverlap", axis.labelOverlap.toJson), ("labelPadding", .ofFloat axis.labelPadding),
     ("orient", axis.orient.toJson), ("tickCount", .int axis.tickCount), ("ticks", .bool axis.ticks),
     ("title", .string axis.title), ("titlePadding", .ofFloat axis.titlePadding)] ++
    Json.optionalMember "values" (fun vs => .array (vs.map Value.toJson)) axis.values

end VisualEncoding
