import VisualEncoding.Scalar.Basic
import VisualEncoding.Json.Reading

/-!
# Binning

Numbers of a field can be put into bins: as many or as wide as asked for, or as the scale sees fit.
-/

namespace VisualEncoding

/-- How many or how wide the bins of a field are. -/
structure BinParams (α : Type) where
  maxbins : Option Nat := none
  step : Option α := none
  deriving BEq, DecidableEq, Repr, Inhabited

/-- Whether and how a field is binned. -/
inductive Bin (α : Type) where
  | flag (on : Bool)
  | params (p : BinParams α)
  deriving BEq, DecidableEq, Repr, Inhabited

namespace Bin

variable {α : Type}

/-- Whether a field is binned at all. -/
def isEnabled : Bin α → Bool
  | .flag on => on
  | .params _ => true

/-- Whether a fixed number or width of bins was asked for. -/
def requestsBuckets : Bin α → Bool
  | .flag _ => false
  | .params p => p.maxbins.isSome || p.step.isSome

end Bin

/-- Takes one parameter. -/
def BinParams.take (p : BinParams Float) (name : String) (j : Json) :
    Except Mismatch (BinParams Float) :=
  match name with
  | "maxbins" => return { p with maxbins := ← Json.readOptional Json.readWord j }
  | "step" => return { p with step := ← Json.readOptional Json.readFloat j }
  | _ => return p

/-- Reads a bin setting. -/
def Bin.read : Json.Reader (Bin Float) :=
  Json.readUnion "Bin"
    [fun j => (Json.readBool j).map .flag,
     fun j => (Json.readRecord "bin parameters" ["maxbins", "step"] {} BinParams.take j).map .params]

/-- A bin setting as JSON. -/
def Bin.toJson : Bin Float → Json
  | .flag on => .bool on
  | .params p =>
    .object (Json.optionalMember "maxbins" (fun n : Nat => .int n) p.maxbins ++
      Json.optionalMember "step" .ofFloat p.step)

end VisualEncoding
