/-
# Adapting to layouts

First every tensor that has a layout is moved to its target order.  Then every
operator is adapted to its moved neighbours: a convolution was written for the
target order and a transpose names its permutation, so only reshapes need
anything.
-/
import Relayout.Graph.Splice

namespace Relayout.Graph

/-- The shape operand of a rank-lifting reshape is a list of dimensions, and
moves with the layout of the output. -/
def adaptLift (operator : Operator) (input output : TensorId) : Step Graph Unit := do
  let i ← tensor input
  let o ← tensor output
  Step.require (i.rank ≠ o.rank) (.rankUnchanged operator.display)
  let l ← layoutOf o
  let shape ← operator.input 1
  let t ← tensor shape
  match t.data with
  | none => Step.reject (.missingData t.name)
  | some data =>
      let moved ← data.reorder l
      changeTensor shape fun t => { t with data := some moved }

/-- A reshape reads in source order: an input with a layout is turned back. -/
def adaptInput (id : OpId) (input : TensorId) : Step Graph Unit := do
  let t ← tensor input
  if t.layout.isSome then discard (preserveInput id 0) else return ()

/-- A reshape writes in source order: an output with a layout is turned behind
it. -/
def adaptOutput (id : OpId) (output : TensorId) : Step Graph Unit := do
  let t ← tensor output
  if t.layout.isSome then discard (preserveOutput id 0) else return ()

/-- What a kind of operator needs. -/
def adapt (id : OpId) (operator : Operator) : Step Graph Unit :=
  match operator.kind with
  | .conv _ | .transpose _ => pure ()
  | .reshape liftsRank => do
      let input ← operator.input 0
      let output ← operator.output 0
      if liftsRank then adaptLift operator input output
      else
        adaptInput id input
        adaptOutput id output

/-- Adapt a parsed operator to its neighbours, once. -/
def transformOp (id : OpId) : Step Graph Unit := do
  let operator ← op id
  Step.require operator.status.isParsed (.transformedUnparsed operator.display)
  if operator.status.isTransformed then return ()
  else
    adapt id operator
    updateOp id (·.advance .transformed)

/-- A tensor that waits to be moved. -/
def isPending (t : Tensor) : Bool := t.layout.isSome && t.status == .parsed

/-- The tensors that wait to be moved, in order of creation. -/
def pending (g : Graph) : List TensorId :=
  (g.tensors.zipIdx.filter fun (t, _) => isPending t).map fun (_, i) => ⟨i⟩

/-- Move the tensors, then adapt the operators that were there before. -/
def transform : Step Graph Unit := do
  (pending (← get)).forM fun id => updateTensor id Tensor.transform
  (List.range (← get).ops.length).forM fun i => transformOp ⟨i⟩

end Relayout.Graph
