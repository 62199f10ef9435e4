/-
# Well-formed target graphs

The rules that every consumer of a target graph relies on: tensors are named
and their data fills their dimensions, nodes name what they do and what they
write, and the nodes of a graph run in an order in which every value is
written once, before it is read.
-/
import Relayout.Target.Model

namespace Relayout.Target

/-- Number of elements that dimensions call for. -/
def dimsCount (dims : List Int64) : Int := dims.foldr (fun d n => d.toInt * n) 1

/-- Data must have the tensor's type and fill its dimensions. -/
def checkData (t : TensorNode) (data : Buffer) : Except ConversionError Unit :=
  if data.elementType ≠ t.elementType then
    .error (.validation t.name (.dataType data.elementType t.elementType))
  else if (data.length : Int) ≠ dimsCount t.dims then
    .error (.validation t.name (.dataCount data.length (t.dims.map Int64.toInt)))
  else .ok ()

/-- A tensor is named, has no negative dimension, and its data is sound. -/
def checkTensor (t : TensorNode) : Except ConversionError Unit :=
  if t.name = "" then .error (.validation "<unnamed>" .noTensorName)
  else
    match t.dims.find? fun d => decide (d.toInt < 0) with
    | some d => .error (.validation t.name (.negativeDimension d.toInt))
    | none =>
        match t.data with
        | some data => checkData t data
        | none => .ok ()

/-- A node says what it does, and names what it writes. -/
def checkNode (n : Node) : Except ConversionError Unit :=
  if n.opType = "" then .error (.validation n.name .noOpType)
  else if n.outputs = [] ∨ "" ∈ n.outputs then .error (.validation n.name .unnamedOutput)
  else .ok ()

/-- Every operand that is not left out has been defined. -/
def checkInputs (defined : List String) (n : Node) : Except ConversionError Unit :=
  match n.inputs.find? fun input => input ≠ "" ∧ input ∉ defined with
  | some input => .error (.validation n.name (.undefinedInput input))
  | none => .ok ()

/-- The names defined once the given outputs are written, each a new one. -/
def defineOutputs (n : Node) : List String → List String → Except ConversionError (List String)
  | defined, [] => .ok defined
  | defined, output :: rest =>
      if output ∈ defined then .error (.validation n.name (.redefinedOutput output))
      else defineOutputs n (output :: defined) rest

/-- The names defined once the nodes have run in order. -/
def checkNodes : List String → List Node → Except ConversionError (List String)
  | defined, [] => .ok defined
  | defined, n :: rest => do
      checkNode n
      checkInputs defined n
      let defined ← defineOutputs n defined n.outputs
      checkNodes defined rest

/-- Every output of the graph has been defined. -/
def checkOutputs (defined : List String) (outputs : List TensorNode) :
    Except ConversionError Unit :=
  match outputs.find? fun t => t.name ∉ defined with
  | some t => .error (.validation t.name .unproducedOutput)
  | none => .ok ()

/-- A graph in which every value is written once, before it is read. -/
def checkGraph (g : Graph) : Except ConversionError Unit := do
  let defined ← checkNodes ((g.initializers ++ g.inputs).map TensorNode.name) g.nodes
  checkOutputs defined g.outputs

end Relayout.Target
