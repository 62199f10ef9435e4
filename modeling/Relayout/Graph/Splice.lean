/-
# Splicing operators in

An operator that does not know about layouts reads its operands in the order
they were declared in.  Where a neighbour has been moved, a transpose is put
on the edge between them:

    T (target order) → transpose → T' (source order) → operator
    operator → O' (source order) → transpose → O (target order)

An operand of too low a rank is lifted by a reshape in the same way.  The
synthesized tensors have their final shape from the start.
-/
import Relayout.Graph.Registry

namespace Relayout.Graph

/-- The layout of a tensor, which the input must have given it. -/
def layoutOf (t : Tensor) : Except ConversionError Layout :=
  match t.layout with
  | some l => .ok l
  | none => .error (.missingLayout t.name)

/-- A synthesized tensor gets its final shape and its layout. -/
def complete (id : TensorId) (shape : List Nat) (l : Layout) : Step Graph Unit := do
  changeTensor id fun t => { t with shape := shape }
  updateTensor id (·.setLayout l)
  updateTensor id (·.setParsed)

/-- The operator that produces a synthesized tensor of a given name. -/
def producerNamed? (g : Graph) (name : String) : Option (TensorId × OpId) := do
  let id ← g.lookup? name
  let t ← g.tensors[id.index]?
  return (id, ← t.producers.head?)

/-! ## Transposes -/

/-- `reader` reads `moved` in place of `operand`, which is no longer its
own. -/
def readInstead (reader : OpId) (operand moved : TensorId) : Step Graph Unit := do
  changeTensor operand (·.removeConsumer reader)
  updateOp reader (·.replaceInput operand moved)
  changeTensor moved (·.addConsumer reader)

/-- A new transpose from `operand` to `moved`, emitted before `reader`, which
now reads `moved`. -/
def transposeBefore (reader : OpId) (operand moved : TensorId) (perm : List Nat)
    (name : String) : Step Graph OpId := do
  let turn ← synthesize (.transpose perm) name
  changeOp turn (·.addInput operand)
  updateTensor operand (·.replaceConsumer reader turn)
  updateOp reader (·.replaceInput operand moved)
  changeOp turn (·.addOutput moved)
  changeTensor moved (·.addProducer turn)
  changeTensor moved (·.addConsumer reader)
  updateOp turn (·.setParsed)
  changeOp reader (·.addPre turn)
  return turn

/-- A new transpose from `moved` to `operand`, emitted after `writer`, which
now writes `moved`. -/
def transposeAfter (writer : OpId) (operand moved : TensorId) (perm : List Nat)
    (name : String) : Step Graph OpId := do
  let turn ← synthesize (.transpose perm) name
  changeOp turn (·.addInput moved)
  updateTensor operand (·.replaceProducer writer turn)
  updateOp writer (·.replaceOutput operand moved)
  changeOp turn (·.addOutput operand)
  changeTensor moved (·.addProducer writer)
  changeTensor moved (·.addConsumer turn)
  updateOp turn (·.setParsed)
  changeOp writer (·.addPost turn)
  return turn

/-- Give the operator its input back in source order.  All readers of one
tensor share one transpose; the answer is that transpose, which must be an
operator of the graph. -/
def preserveInput (id : OpId) (slot : Nat) : Step Graph OpId := do
  let operator ← op id
  Step.require operator.status.isParsed (.rewrittenUnparsed operator.display)
  let operand ← operator.input slot
  let t ← tensor operand
  let back := (← layoutOf t).inverse
  let name := synthesizedName "Transposed" t.name
  let shape ← back.permute t.shape
  match producerNamed? (← get) name with
  | some (existing, turn) =>
      readInstead id operand existing
      let _ ← op turn
      return turn
  | none =>
      let moved ← derive operand name false
      complete moved shape back
      transposeBefore id operand moved back.perm name

/-- Let the operator write its output in source order.  The answer is the
transpose behind it. -/
def preserveOutput (id : OpId) (slot : Nat) : Step Graph OpId := do
  let operator ← op id
  Step.require operator.status.isParsed (.rewrittenUnparsed operator.display)
  let operand ← operator.output slot
  let t ← tensor operand
  let forward ← layoutOf t
  let shape ← forward.inverse.permute t.shape
  let moved ← derive operand (synthesizedName "ToTranspose" t.name) false
  complete moved shape forward.inverse
  transposeAfter id operand moved forward.perm (synthesizedName "Transpose" t.name)

/-! ## Reshapes that lift a rank -/

/-- Lift an operand to the rank of a layout by leading ones, through a reshape
emitted before its reader.  The lifted operand has that layout, so this has to
happen before layouts are applied. -/
def liftRank (id : OpId) (slot : Nat) (l : Layout) : Step Graph OpId := do
  let operator ← op id
  Step.require (operator.status = .parsed) (.broadcastTooLate operator.display)
  let operand ← operator.input slot
  let t ← tensor operand
  Step.expect (t.rank < l.rank) (.validation t.name (.broadcastRank t.rank l.rank))
  let shape := List.replicate (l.rank - t.rank) 1 ++ t.shape
  let name := synthesizedName "Reshape" t.name
  let lifted ← derive operand name false
  let values ← vector name (shape.map Int.ofNat)
  complete lifted shape l
  let reshape ← synthesize (.reshape true) name
  changeOp reshape fun r => (r.addInput operand).addInput values
  updateTensor operand (·.replaceConsumer id reshape)
  changeTensor values (·.addConsumer reshape)
  updateOp id (·.replaceInput operand lifted)
  changeOp reshape (·.addOutput lifted)
  changeTensor lifted (·.addProducer reshape)
  changeTensor lifted (·.addConsumer id)
  updateOp reshape (·.setParsed)
  changeOp id (·.addPre reshape)
  return reshape

end Relayout.Graph
