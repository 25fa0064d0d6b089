import VisualEncoding.Json.Reading

/-!
# Data types of fields

What the values of a field are: categories, points on a continuum, or shapes on a map.
-/

namespace VisualEncoding

/-- The declared type of a data field. -/
inductive DataType where
  | nominal
  | ordinal
  | quantitative
  | temporal
  | geojson
  deriving Repr, DecidableEq

namespace DataType

/-- All types with their names. -/
def named : List (String × DataType) :=
  [("nominal", .nominal), ("ordinal", .ordinal), ("quantitative", .quantitative),
   ("temporal", .temporal), ("geojson", .geojson)]

/-- The name of a type. -/
def name : DataType → String
  | .nominal => "nominal"
  | .ordinal => "ordinal"
  | .quantitative => "quantitative"
  | .temporal => "temporal"
  | .geojson => "geojson"

/-- Whether the values are categories. -/
def isDiscrete (t : DataType) : Bool := t == .nominal || t == .ordinal

/-- Whether the values are points on a continuum. -/
def isContinuous (t : DataType) : Bool := t == .quantitative || t == .temporal

/-- Reads a type by its name. -/
def read : Json.Reader DataType := Json.readNamed named

/-- A type as JSON. -/
def toJson (t : DataType) : Json := .string t.name

end DataType

end VisualEncoding
