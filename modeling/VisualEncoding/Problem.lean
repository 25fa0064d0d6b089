import VisualEncoding.Calendar.Interval
import VisualEncoding.Channel.Document
import VisualEncoding.Color.Css
import VisualEncoding.Label.Formatter
import VisualEncoding.Json.Token

/-!
# Problems

Everything that can be wrong with a definition, a dataset or a request, each with what it is about.
`Problem.kind` sorts the causes, `Problem.message` words them.

The first four kinds are those of the specification, §7. `noResult` is a step of the calendar that has none,
which the specification does not know of.
-/

namespace VisualEncoding

/-- Something that a definition can ask for and that does not exist. -/
inductive MissingFeature where
  | symlog
  | bins
  | niceInterval (name : String)
  | interpolationName (name : String)
  | interpolation (method : String)
  deriving Repr, DecidableEq

/-- Why something failed. -/
inductive Problem (α : Type) where
  | missingFeature (feature : MissingFeature)
  | date (fault : Calendar.DateFault)
  | domainEntry (entry : DomainEntry α) (family : ScaleFamily)
  | rangeValue (v : Value α)
  | rangeNotNumeric (family : ScaleFamily) (range : List (Value α))
  | color (text : String) (fault : ColorFault)
  | noColors
  | interpolationMethod (name : String)
  | format (fault : Label.FormatFault)
  | unknownRole (name : String)
  | undeclaredChannel (name : String) (declared : List String)
  | missingChannel (name : String)
  | unreadable (mismatch : Mismatch)
  | notJson (fault : Json.Fault)
  /-- A step of the calendar that has no result. -/
  | calendar (fault : Calendar.IntervalFault)

/-- The kinds of problems. -/
inductive ProblemKind where
  | unimplemented
  | invalidConfig
  | validation
  | serialization
  | noResult
  deriving Repr, DecidableEq

namespace Problem

variable {α : Type}

/-- The kind of a problem. -/
def kind : Problem α → ProblemKind
  | .missingFeature _ => .unimplemented
  | .date _ | .domainEntry _ _ | .rangeValue _ | .rangeNotNumeric _ _ | .color _ _ | .noColors
  | .interpolationMethod _ | .format _ => .invalidConfig
  | .unknownRole _ | .undeclaredChannel _ _ | .missingChannel _ => .validation
  | .unreadable _ | .notJson _ => .serialization
  | .calendar _ => .noResult

end Problem

/-- The text of a missing feature. -/
def MissingFeature.message : MissingFeature → String
  | .symlog => "symlog scales"
  | .bins => "scale.bins"
  | .niceInterval name => "scale.nice with time interval '" ++ name ++ "'"
  | .interpolationName name => "scale.interpolate '" ++ name ++ "'"
  | .interpolation method => "'" ++ method ++ "' color interpolation"

/-- The words that the message of a kind starts with. -/
def ProblemKind.heading : ProblemKind → String
  | .unimplemented => "Not implemented: "
  | .invalidConfig => "Invalid configuration: "
  | .validation => "Validation error: "
  | .serialization => "Serialization error: "
  | .noResult => ""

namespace Problem

/-- The text of a problem without its kind. -/
def detail : Problem Float → String
  | .missingFeature feature => feature.message
  | .date fault => fault.message
  | .domainEntry entry family =>
    "Domain value " ++ entry.inspect ++ " is not valid for a " ++ family.name ++ " scale"
  | .rangeValue v => "Range value " ++ v.text ++ " is neither a number nor a color"
  | .rangeNotNumeric family range =>
    family.name ++ " scale range must be numeric, got " ++ Text.inspectList (range.map Value.inspect)
  | .color text fault => "Invalid color '" ++ text ++ "': " ++ fault.message
  | .noColors => "At least one color is required"
  | .interpolationMethod name => "Unknown interpolation type '" ++ name ++ "'"
  | .format fault => fault.message
  | .unknownRole name =>
    "Unknown channel type '" ++ name ++ "'. Expected one of: " ++
      ", ".intercalate (ChannelRole.named.map Prod.fst)
  | .undeclaredChannel name declared =>
    "Encoding has channel '" ++ name ++ "' which is not declared. Declared channels: " ++
      ", ".intercalate declared
  | .missingChannel name => "Encoding is missing declared channel '" ++ name ++ "'"
  | .unreadable mismatch => mismatch.message
  | .notJson .malformed => "malformed text"
  | .notJson .truncated => "truncated text"
  | .calendar .outsideCalendar => "outside the calendar"
  | .calendar .noRemainder => "no remainder"

/-- The text of a problem. -/
def message (p : Problem Float) : String := p.kind.heading ++ p.detail

end Problem

end VisualEncoding
