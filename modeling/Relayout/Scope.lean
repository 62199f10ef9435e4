/-
# Scope of a conversion

What the steps of one conversion read and never change.
-/
import Relayout.Source.Model

namespace Relayout

/-- A subgraph to convert, the model that holds its buffers and operator
codes, and whether conflicting requests for a tensor are errors. -/
structure Scope where
  model : Source.Model
  subgraph : Source.Subgraph
  strict : Bool

namespace Scope

/-- The scope of a subgraph, by position. -/
def ofSubgraph? (model : Source.Model) (index : Nat) (strict : Bool) : Option Scope :=
  model.subgraphs[index]?.map fun subgraph => ⟨model, subgraph, strict⟩

end Scope

end Relayout
