/-
# Taking in the source

Layouts known up front are registered first, in the order of the tensors'
names.  Then every operator is read in source order: its operand counts and
options are checked, its operands are requested and read, and the edges are
recorded on both sides.  The boundary of the graph comes last.

A convolution asks for its activations and weights in channel-first layout; a
reshape asks for no layout at all.
-/
import Relayout.Graph.Registry
import Relayout.Options

namespace Relayout.Graph

/-! ## Operands -/

/-- The declaration of an operator that comes from the source. -/
def declaration (s : Scope) (id : OpId) : Step Graph (Nat × Source.OperatorDecl) := do
  let operator ← op id
  match operator.index with
  | none => Step.violate (.noSource operator.display)
  | some i => return (i, ← entryAt s.subgraph.operators i)

/-- The operand in an input slot of a declared operator becomes its next
input. -/
def takeInput (s : Scope) (id : OpId) (slot : Nat) (layout : Option Layout) (constant : Bool) :
    Step Graph TensorId := do
  let (_, decl) ← declaration s id
  let t ← requestParsed s (← entryAt decl.inputs slot) layout constant
  changeTensor t (·.addConsumer id)
  changeOp id (·.addInput t)
  return t

/-- The operand in an output slot of a declared operator becomes its next
output. -/
def takeOutput (s : Scope) (id : OpId) (slot : Nat) (layout : Option Layout) :
    Step Graph TensorId := do
  let (_, decl) ← declaration s id
  let t ← requestParsed s (← entryAt decl.outputs slot) layout false
  changeTensor t (·.addProducer id)
  changeOp id (·.addOutput t)
  return t

/-- Whether a declared operator has an operand in an input slot. -/
def hasInput (decl : Source.OperatorDecl) (slot : Nat) : Bool :=
  match decl.inputs[slot]? with
  | some index => 0 ≤ index.toInt
  | none => false

/-- An operator takes the name of its output, and is complete. -/
def finish (id : OpId) (output : TensorId) : Step Graph Unit := do
  let name := (← tensor output).name
  updateOp id fun operator => { operator with name := name }.setParsed

/-! ## Convolutions -/

/-- The options of a convolution; nothing may be fused behind it. -/
def convOptions (index : Nat) (decl : Source.OperatorDecl) :
    Except ConversionError Source.ConvOptions :=
  match decl.options with
  | .conv2d options =>
      if options.activation = .none then .ok options
      else .error (.unsupportedAttribute "Conv" index (.fusedActivation options.activation.name))
  | _ => .error (.unsupportedAttribute "Conv" index .noConvOptions)

/-- Activations of a convolution have rank four. -/
def checkActivationRank (id : TensorId) : Step Graph Unit := do
  let t ← tensor id
  Step.expect (t.rank = 4) (.validation t.name (.activationRank t.shape))

/-- Height and width of a kernel, from the weights in source order: output
channel, height, width, input channel. -/
def kernelSize (weights : TensorId) : Step Graph (List Int64) := do
  let t ← tensor weights
  match t.shape with
  | [_, height, width, _] => return [.ofNat height, .ofNat width]
  | _ => Step.reject (.validation t.name (.weightsRank t.shape))

/-- The bias of a convolution, which may be left out. -/
def takeBias (s : Scope) (id : OpId) (decl : Source.OperatorDecl) : Step Graph Unit :=
  if hasInput decl 2 then discard (takeInput s id 2 none true) else pure ()

/-- The parameters of a convolution; all but the kernel are declared. -/
def convolution (options : Source.ConvOptions) (kernelShape : List Int64) : Convolution where
  autoPad := .ofPadding options.padding
  strides := [.ofNat options.strideH.toNat, .ofNat options.strideW.toNat]
  dilations := [.ofNat options.dilationH.toNat, .ofNat options.dilationW.toNat]
  kernelShape := kernelShape

/-- Read a convolution. -/
def parseConv (s : Scope) (id : OpId) : Step Graph Unit := do
  let (index, decl) ← declaration s id
  Step.require (s.model.opcode decl = .conv2d) (.notConvolution index)
  checkArity "Conv" index .inputs 2 3 decl.inputs.length
  checkArity "Conv" index .outputs 1 1 decl.outputs.length
  let options ← convOptions index decl
  checkActivationRank (← takeInput s id 0 (some .activation) false)
  let kernelShape ← kernelSize (← takeInput s id 1 (some .weights) true)
  takeBias s id decl
  let output ← takeOutput s id 0 (some .activation)
  checkActivationRank output
  changeOp id fun operator => { operator with kind := .conv (convolution options kernelShape) }
  finish id output

/-! ## Reshapes -/

/-- A shape operand has 64-bit elements and should be a vector.  A constant of
higher rank is flattened. -/
def normalizeShape (id : TensorId) : Step Graph Unit := do
  updateTensor id (·.coerceType .int64)
  let t ← tensor id
  if 1 < t.rank then
    warn (.shapeOperandRank t.display t.rank)
    if t.isInitializer then
      changeTensor id fun t => { t with shape := [t.elementCount] }

/-- The shape that a reshape declares among its options. -/
def declaredNewShape (index : Nat) (decl : Source.OperatorDecl) :
    Except ConversionError (List Int) :=
  match decl.options with
  | .reshape newShape => .ok (newShape.map Int32.toInt)
  | _ => .error (.unsupportedAttribute "Reshape" index .noShape)

/-- The shape operand of a reshape: as declared, or else a vector made of the
declared options. -/
def takeShape (s : Scope) (id : OpId) (index : Nat) (decl : Source.OperatorDecl) :
    Step Graph Unit := do
  if hasInput decl 1 then
    normalizeShape (← takeInput s id 1 none false)
  else
    let values ← declaredNewShape index decl
    let output ← s.subgraph.tensor (← entryAt decl.outputs 0)
    let shape ← vector output.name values
    changeTensor shape (·.addConsumer id)
    changeOp id (·.addInput shape)

/-- Read a reshape. -/
def parseReshape (s : Scope) (id : OpId) : Step Graph Unit := do
  let (index, decl) ← declaration s id
  Step.require (s.model.opcode decl = .reshape) (.notReshape index)
  checkArity "Reshape" index .inputs 1 2 decl.inputs.length
  checkArity "Reshape" index .outputs 1 1 decl.outputs.length
  discard (takeInput s id 0 none false)
  takeShape s id index decl
  finish id (← takeOutput s id 0 none)

/-! ## The whole subgraph -/

/-- Read an operator, once. -/
def parseOp (s : Scope) (id : OpId) : Step Graph Unit := do
  let operator ← op id
  if operator.status.isParsed then return ()
  match operator.kind with
  | .conv _ => parseConv s id
  | .reshape _ => parseReshape s id
  | .transpose _ => Step.violate .parsedTranspose

/-- Register the layout that is known for a tensor. -/
def applyExplicitLayout (s : Scope) (name : String) (e : ExplicitLayout) : Step Graph Unit := do
  match s.subgraph.tensorIndex? name with
  | none => Step.reject (.unknownTensor name)
  | some index =>
      let l ← e.toLayout name
      let id ← requestParsed s (.ofNat index) (some l) false
      let t ← tensor id
      Step.expect (t.rank = l.rank) (.validation name (.layoutRank l.rank t.rank))

/-- Register all layouts that are known up front. -/
def applyExplicitLayouts (s : Scope) (layouts : SortedMap ExplicitLayout) : Step Graph Unit :=
  layouts.entries.forM fun (name, e) => applyExplicitLayout s name e

/-- Put a declared operator into the graph and read it.  One that fails stays
in its arena and outside the order. -/
def takeOp (s : Scope) (index : Nat) (decl : Source.OperatorDecl) : Step Graph Unit := do
  let kind ← Kind.ofOpcode (s.model.opcode decl)
  let id ← addOp (.fresh (some index) "" kind)
  parseOp s id
  modify fun g => { g with order := g.order ++ [id] }

/-- The tensors at the boundary of the subgraph. -/
def takeBoundary (s : Scope) (indices : List UInt64) : Step Graph (List TensorId) :=
  indices.mapM fun index => requestParsed s index.toInt64 none false

/-- Read all operators in source order, then the boundary. -/
def parse (s : Scope) : Step Graph Unit := do
  s.subgraph.operators.zipIdx.forM fun (decl, index) => takeOp s index decl
  let inputs ← takeBoundary s s.subgraph.inputs
  modify fun g => { g with inputs := inputs }
  let outputs ← takeBoundary s s.subgraph.outputs
  modify fun g => { g with outputs := outputs }

end Relayout.Graph
