import VisualEncoding.Main
import VisualEncoding.Proofs.Channel.Completion
import VisualEncoding.Proofs.Scale.Legality
import VisualEncoding.Proofs.Scale.MissingFeature
import VisualEncoding.Proofs.Session.EqualKeys
import VisualEncoding.Proofs.Color.InTurn
import VisualEncoding.Proofs.Color.Sharing
import VisualEncoding.Proofs.Session.DomainColors
import VisualEncoding.Proofs.Session.Clients
import VisualEncoding.Proofs.Channel.Coverage
import VisualEncoding.Proofs.Channel.Fitting
import VisualEncoding.Proofs.Scale.ReversedCategories
import VisualEncoding.Proofs.Scale.ReversedContinuous
import VisualEncoding.Proofs.Scale.Completion
import VisualEncoding.Proofs.Session.FittedCategories
import VisualEncoding.Proofs.Color.Exchange
import VisualEncoding.Proofs.Session.Refitting
import VisualEncoding.Proofs.Session.FittingOrder
import VisualEncoding.Proofs.Scalar.Integers
import VisualEncoding.Proofs.Calendar.Timestamps
import VisualEncoding.Proofs.Json.Canonical
import VisualEncoding.Proofs.Json.Readers
import VisualEncoding.Proofs.Json.Records
import VisualEncoding.Proofs.Calendar.Descriptors
import VisualEncoding.Proofs.Value.Documents
import VisualEncoding.Proofs.Scale.Documents
import VisualEncoding.Proofs.Axis.Documents
import VisualEncoding.Proofs.Channel.Documents
import VisualEncoding.Proofs.Scalar.Scaling
import VisualEncoding.Proofs.Json.Texts
import VisualEncoding.Proofs.Json.WrittenNumbers
import VisualEncoding.Proofs.Chart.SettledDomains
import VisualEncoding.Proofs.Chart.BoundChannels
import VisualEncoding.Proofs.Calendar.Ranges
import VisualEncoding.Proofs.Calendar.EasternClock
import VisualEncoding.Proofs.Calendar.LocalSpans
import VisualEncoding.Proofs.Ticks.Ladder
import VisualEncoding.Proofs.Calendar.Edges
import VisualEncoding.Proofs.Calendar.Faults
import VisualEncoding.Proofs.Calendar.SpanFaults
import VisualEncoding.Proofs.Chart.GroupsAndLegends
import VisualEncoding.Proofs.Scale.TimeFaults
import VisualEncoding.Proofs.Ticks.Settling
import VisualEncoding.Proofs.Ticks.LogTicks
import VisualEncoding.Proofs.Scale.Interpolation
import VisualEncoding.Proofs.Scale.Inversion
import VisualEncoding.Proofs.Scale.Spreading
import VisualEncoding.Proofs.Scale.WidenedDomains
import VisualEncoding.Proofs.Scale.BandTiling
import VisualEncoding.Proofs.Scale.Bins
import VisualEncoding.Proofs.Scale.GrowingCategories
import VisualEncoding.Proofs.Scale.EqualParts
import VisualEncoding.Proofs.Scale.Quantiles
import VisualEncoding.Proofs.Scale.UsableThresholds
import VisualEncoding.Proofs.Calendar.Parts
import VisualEncoding.Proofs.Value.Keys
import VisualEncoding.Proofs.Calendar.Resolution
import VisualEncoding.Proofs.Label.Patterns
import VisualEncoding.Proofs.Label.Integers
import VisualEncoding.Proofs.Channel.TightDomains
