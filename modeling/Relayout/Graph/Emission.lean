/-
# Emitting the converted graph

The operators of the source are emitted in source order, each one between
what was spliced in before and behind it.  The tensors they refer to are
sorted into constants, inputs, outputs and the values between.
-/
import Relayout.Graph.Basic

namespace Relayout.Graph

/-! ## Order -/

/-- An operator between its splices.  A splice is created after the operator
it belongs to, so no chain of splices is longer than the arena. -/
def flatten (ops : List Operator) : Nat → OpId → Except Violation (List OpId)
  | 0, _ => .error .emissionCycle
  | fuel + 1, id => do
      let operator ← entryAt ops id.index
      let pre ← operator.pre.mapM (flatten ops fuel)
      let post ← operator.post.mapM (flatten ops fuel)
      return pre.flatten ++ [id] ++ post.flatten

/-- All operators that are emitted, in order. -/
def emissionOrder (g : Graph) : Except Violation (List OpId) := do
  return (← g.order.mapM (flatten g.ops g.ops.length)).flatten

/-! ## Nodes -/

/-- The node of a parsed operator, checked. -/
def convertOp (id : OpId) : Step Graph Target.Node := do
  let operator ← op id
  Step.require operator.status.isParsed (.convertedUnparsed operator.display)
  let inputs ← operator.inputs.mapM tensor
  let outputs ← operator.outputs.mapM tensor
  let node : Target.Node := {
    name := operator.name
    opType := operator.kind.name
    inputs := inputs.map Tensor.name
    outputs := outputs.map Tensor.name
    attributes := .ofEntries operator.kind.attributes }
  Target.checkNode node
  updateOp id (·.advance .converted)
  return node

/-! ## Tensors -/

/-- What a tensor is to the converted graph. -/
inductive Role where
  | initializer
  | input
  | output
  | value
deriving DecidableEq, Repr

/-- The role of a converted tensor: data makes it a constant, even at the
boundary. -/
def role (g : Graph) (id : TensorId) (node : Target.TensorNode) : Role :=
  if node.data.isSome then .initializer
  else if id ∈ g.inputs then .input
  else if id ∈ g.outputs then .output
  else .value

/-- The graph's inputs and the operands of the given operators, each once, by
first mention. -/
def referenced (inputs : List TensorId) (operators : List Operator) : List TensorId :=
  (inputs ++ operators.flatMap fun operator => operator.inputs ++ operator.outputs).foldl
    (fun seen id => if id ∈ seen then seen else seen ++ [id]) []

/-- A converted tensor with its role. -/
def convertTensor (id : TensorId) : Step Graph (Role × Target.TensorNode) := do
  let node ← onTensor id Tensor.convert
  return (role (← get) id node, node)

/-- The tensors in a given role. -/
def inRole (r : Role) (nodes : List (Role × Target.TensorNode)) : List Target.TensorNode :=
  (nodes.filter fun (r', _) => r' == r).map Prod.snd

/-! ## The whole graph -/

/-- The converted graph, checked. -/
def convert (name : String) : Step Graph Target.Graph := do
  let order ← emissionOrder (← get)
  let nodes ← order.mapM convertOp
  let operators ← order.mapM op
  let tensors ← (referenced (← get).inputs operators).mapM convertTensor
  let outputs ← (← get).outputs.mapM fun id => onTensor id Tensor.convert
  let graph : Target.Graph := {
    name := name
    nodes := nodes
    initializers := inRole .initializer tensors
    inputs := inRole .input tensors
    outputs := outputs
    valueInfos := inRole .value tensors }
  Target.checkGraph graph
  return graph

end Relayout.Graph
