/-
# Graphs under conversion

The state that a conversion works on: two arenas, one of tensors and one of
operators, that refer to each other by position, a table of the tensors'
names, and lists of identifiers that say which operators come from the source,
which were synthesized, and which tensors are the graph's boundary.  Arenas
only grow, so an identifier stays valid.
-/
import Relayout.Operator
import Relayout.SortedMap
import Relayout.Tensor

namespace Relayout

/-- A graph under conversion. -/
structure Graph where
  /-- All tensors, in order of creation. -/
  tensors : List Tensor
  /-- The identifiers of the tensors, by name. -/
  byName : SortedMap TensorId
  /-- All operators, in order of creation. -/
  ops : List Operator
  /-- Operators of the source, in source order. -/
  order : List OpId
  /-- Synthesized operators, in order of creation. -/
  created : List OpId
  inputs : List TensorId
  outputs : List TensorId
  /-- What was reported so far, oldest first. -/
  warnings : List Warning
deriving DecidableEq

namespace Graph

def empty : Graph where
  tensors := []
  byName := .empty
  ops := []
  order := []
  created := []
  inputs := []
  outputs := []
  warnings := []

/-- The identifier registered for a name. -/
def lookup? (g : Graph) (name : String) : Option TensorId := g.byName.find? name

/-- The tensor registered for a name. -/
def tensorNamed? (g : Graph) (name : String) : Option Tensor := do
  let id ← g.lookup? name
  g.tensors[id.index]?

/-! ## Reading -/

/-- The tensor of an identifier, which must exist. -/
def tensor (id : TensorId) : Step Graph Tensor := do
  entryAt (← get).tensors id.index

/-- The operator of an identifier, which must exist. -/
def op (id : OpId) : Step Graph Operator := do
  entryAt (← get).ops id.index

/-! ## Changing -/

/-- A step on one tensor. -/
def onTensor {α : Type} (id : TensorId) (step : Step Tensor α) : Step Graph α :=
  Step.onEntry tensors (fun g ts => { g with tensors := ts }) id.index step

/-- A step on one operator. -/
def onOp {α : Type} (id : OpId) (step : Step Operator α) : Step Graph α :=
  Step.onEntry ops (fun g os => { g with ops := os }) id.index step

/-- A change of one tensor. -/
def changeTensor (id : TensorId) (change : Tensor → Tensor) : Step Graph Unit :=
  onTensor id (modify change)

/-- A change of one operator. -/
def changeOp (id : OpId) (change : Operator → Operator) : Step Graph Unit :=
  onOp id (modify change)

/-- A change of one tensor that callers promise to be possible. -/
def updateTensor (id : TensorId) (change : Tensor → Except Violation Tensor) : Step Graph Unit :=
  onTensor id (Step.update change)

/-- A change of one operator that callers promise to be possible. -/
def updateOp (id : OpId) (change : Operator → Except Violation Operator) : Step Graph Unit :=
  onOp id (Step.update change)

/-- The tensor that `make` makes of the next identifier, put at the end of its
arena, and its name put into the table. -/
def addTensor (name : String) (make : TensorId → Tensor) : Step Graph TensorId := do
  let g ← get
  let id : TensorId := ⟨g.tensors.length⟩
  set { g with tensors := g.tensors ++ [make id], byName := g.byName.insert name id }
  return id

/-- An operator put at the end of its arena. -/
def addOp (op : Operator) : Step Graph OpId := do
  let g ← get
  set { g with ops := g.ops ++ [op] }
  return ⟨g.ops.length⟩

/-- An operator without a source.  Callers wire it. -/
def synthesize (kind : Kind) (name : String) : Step Graph OpId := do
  let id ← addOp (.fresh none name kind)
  modify fun g => { g with created := g.created ++ [id] }
  return id

/-- Report something and go on. -/
def warn (w : Warning) : Step Graph Unit :=
  modify fun g => { g with warnings := g.warnings ++ [w] }

end Graph

end Relayout
