import VisualEncoding.Channel.Definition
import VisualEncoding.Channel.Role

/-!
# Encodings

A chart declares its channels by name and role. An encoding binds names to definitions: one, or a list
for a channel with many values, such as a tooltip. A kind of chart brings an encoding of its own, of
which a user overrides single channels.

An encoding is a mapping whose order is irrelevant in the specification (§3). Here it is a list with distinct
names, whose order decides only which of several undeclared names is reported.
-/

namespace VisualEncoding

/-- A channel that a chart has. -/
structure ChannelDeclaration where
  name : String
  role : ChannelRole
  deriving Repr, DecidableEq

/-- What a channel is bound to. -/
inductive ChannelBinding (α : Type) where
  | single (d : ChannelDef α)
  | multiple (ds : List (ChannelDef α))
  deriving BEq

/-- The bindings of channels by their names. -/
abbrev Encoding (α : Type) := List (String × ChannelBinding α)

namespace Encoding

variable {α : Type}

/-- The names that are bound. -/
def names (e : Encoding α) : List String := e.map Prod.fst

/-- The encoding without the binding of a name. -/
def without (e : Encoding α) (name : String) : Encoding α := e.filter fun b => b.1 != name

/-- The encoding with a binding of a name in place of one that it may have. -/
def bind (e : Encoding α) (name : String) (binding : ChannelBinding α) : Encoding α :=
  e.without name ++ [(name, binding)]

/-- The encoding of bindings in order; of those with one name the last stays. -/
def ofList (bindings : List (String × ChannelBinding α)) : Encoding α :=
  bindings.foldl (fun e b => e.bind b.1 b.2) []

/-- The encoding with other bindings in place of its own for the names that those bind. -/
def overriddenBy (e overrides : Encoding α) : Encoding α :=
  (e.filter fun b => !overrides.names.contains b.1) ++ overrides

/-- The first name that is bound but not declared. -/
def undeclared? (e : Encoding α) (declared : List ChannelDeclaration) : Option String :=
  e.names.find? fun name => !(declared.map (·.name)).contains name

end Encoding

/-- A kind of chart: its channels, and what they are bound to unless a user says otherwise. -/
structure ChartKind (α : Type) where
  channels : List ChannelDeclaration
  defaults : Encoding α
  isLocal : Bool

/-- The encoding of a chart of a kind: channels that are overridden are replaced as a whole. -/
def ChartKind.encoding {α : Type} (kind : ChartKind α) (overrides : Encoding α) : Encoding α :=
  kind.defaults.overriddenBy overrides

end VisualEncoding
