/-
# Conversion

The whole way from a source model to a target model: known layouts, intake,
adaptation, emission.  A model has exactly one subgraph; several can only be
converted one by one.  Model and options may also be given as documents.
-/
import Relayout.Graph.Adaptation
import Relayout.Graph.Emission
import Relayout.Graph.Intake

namespace Relayout

/-- The outcome of a conversion, and what it reported on the way. -/
structure Report (α : Type) where
  outcome : Except Fault α
  warnings : List Warning

namespace Report

/-- Nothing was reported. -/
def rejected {α : Type} (e : ConversionError) : Report α := ⟨.error (.input e), []⟩

def map {α β : Type} (f : α → β) (r : Report α) : Report β := ⟨r.outcome.map f, r.warnings⟩

/-- A step run on an empty graph. -/
def ofStep {α : Type} (step : Step Graph α) : Report α :=
  match step.run .empty with
  | .ok a g => ⟨.ok a, g.warnings⟩
  | .error e g => ⟨.error e, g.warnings⟩

end Report

namespace Conversion

/-- The name of a graph whose subgraph has none. -/
def defaultGraphName : String := "main"

/-- All stages of a conversion. -/
def run (s : Scope) (layouts : SortedMap ExplicitLayout) (name : String) :
    Step Graph Target.Graph := do
  Graph.applyExplicitLayouts s layouts
  Graph.parse s
  Graph.transform
  Graph.convert name

/-- One subgraph, converted. -/
def convertSubgraph (m : Source.Model) (index : Nat) (o : Options) : Report Target.Graph :=
  match Scope.ofSubgraph? m index o.strictRegistry with
  | none => .rejected (.subgraphCount m.subgraphs.length)
  | some s => .ofStep (run s o.explicitLayouts (s.subgraph.name.getD defaultGraphName))

/-- A model with a single subgraph, converted. -/
def convertModel (m : Source.Model) (o : Options) : Report Target.Model :=
  if m.subgraphs.length = 1 then
    (convertSubgraph m 0 o).map fun graph =>
      ⟨o.irVersion, o.opsetVersion, o.producerName, o.producerVersion, graph⟩
  else .rejected (.subgraphCount m.subgraphs.length)

/-! ## From documents -/

/-- Why there is nothing to convert. -/
inductive LoadError where
  /-- A document is not there. -/
  | missing
  /-- A document does not describe a value of its kind. -/
  | malformed
deriving DecidableEq, Repr

/-- The value that a document describes. -/
def load {α δ : Type} (read : δ → Option α) : Option δ → Except LoadError α
  | none => .error .missing
  | some document =>
      match read document with
      | some a => .ok a
      | none => .error .malformed

/-- The model of one document, converted with the options of another.  The
model is looked at first. -/
def convertDocuments {δ : Type} (readModel : δ → Option Source.Model)
    (readOptions : δ → Option Options) (model options : Option δ) :
    Except LoadError (Report Target.Model) := do
  let m ← load readModel model
  let o ← load readOptions options
  return convertModel m o

end Conversion

end Relayout
