/-
# Conversion options

What a caller may set: layouts known up front, how conflicting requests for a
tensor are treated, and the versions and producer written into the result.
Every option has a default, so a document may leave out any of them.
-/
import Relayout.Environment
import Relayout.Fault
import Relayout.Json.Word
import Relayout.SortedMap

namespace Relayout

/-- The layout to assume for a named tensor, by its labels. -/
structure ExplicitLayout where
  source : String
  target : String
deriving DecidableEq, Repr

namespace ExplicitLayout

/-- The layout itself; labels that are none are the input's fault. -/
def toLayout (e : ExplicitLayout) (tensor : String) : Except ConversionError Layout :=
  match Layout.ofLabels e.source e.target with
  | .ok l => .ok l
  | .error reason => .error (.validation tensor (.labels reason))

def ofJson? (j : Json) : Option ExplicitLayout := do
  let r ← j.toRecord? ["source", "target"]
  return ⟨← r.required? "source" Json.toText?, ← r.required? "target" Json.toText?⟩

/-- Layouts by the names of their tensors. -/
def mapOfJson? (j : Json) : Option (SortedMap ExplicitLayout) :=
  (j.toEntriesOf? ofJson?).map SortedMap.ofEntries

end ExplicitLayout

/-- How a model is converted. -/
structure Options where
  explicitLayouts : SortedMap ExplicitLayout
  strictRegistry : Bool
  opsetVersion : Int64
  irVersion : Int64
  producerName : String
  producerVersion : String
deriving DecidableEq, Repr

namespace Options

/-- The options of a caller who sets none. -/
def standard (env : Environment) : Options where
  explicitLayouts := .empty
  strictRegistry := env.strictByDefault
  opsetVersion := 13
  irVersion := 7
  producerName := "t2o"
  producerVersion := "0.1.0"

def withExplicitLayout (o : Options) (tensor source target : String) : Options :=
  { o with explicitLayouts := o.explicitLayouts.insert tensor ⟨source, target⟩ }

def withStrictRegistry (o : Options) (strict : Bool) : Options :=
  { o with strictRegistry := strict }

def withOpsetVersion (o : Options) (version : Int64) : Options :=
  { o with opsetVersion := version }

def ofJson? (env : Environment) (j : Json) : Option Options := do
  let r ← j.toRecord? ["explicit_layouts", "strict_registry", "opset_version", "ir_version",
    "producer_name", "producer_version"]
  let d := standard env
  return {
    explicitLayouts := ←
      r.defaulted? "explicit_layouts" ExplicitLayout.mapOfJson? d.explicitLayouts
    strictRegistry := ← r.defaulted? "strict_registry" Json.toBool? d.strictRegistry
    opsetVersion := ← r.defaulted? "opset_version" Json.toInt64? d.opsetVersion
    irVersion := ← r.defaulted? "ir_version" Json.toInt64? d.irVersion
    producerName := ← r.defaulted? "producer_name" Json.toText? d.producerName
    producerVersion := ← r.defaulted? "producer_version" Json.toText? d.producerVersion }

/-- The options written by a document. -/
def parse (env : Environment) (document : String) : Option Options :=
  (Json.parse document).bind (ofJson? env)

end Options

end Relayout
