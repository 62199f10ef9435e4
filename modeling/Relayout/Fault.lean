/-
# Faults and warnings

Conversion stops for one of two reasons.  A `ConversionError` says what is
wrong with the input: every such error is the user's to mend.  A `Violation`
says that a condition between the parts of this library was broken: a caller
used the graph out of order, or an index is dangling.  Both are causes, not
texts; `message` renders them in one place.
-/
import Relayout.ElementType
import Relayout.Identifier
import Relayout.Layout.Basic
import Relayout.Status

namespace Relayout

/-! ## What is wrong with an input -/

/-- Why a named part of a model or of a graph is refused. -/
inductive Defect where
  /-- The labels of an explicit layout are no layout. -/
  | labels (reason : LabelError)
  /-- An explicit layout has another rank than its tensor. -/
  | layoutRank (layout tensor : Nat)
  | weightsRank (shape : List Nat)
  | activationRank (shape : List Nat)
  /-- An operand has no lower rank than what it is to be lifted to. -/
  | broadcastRank (operand layout : Nat)
  | noTensorName
  | negativeDimension (dim : Int)
  | dataType (data tensor : ElementType)
  | dataCount (count : Nat) (dims : List Int)
  | noOpType
  | unnamedOutput
  | undefinedInput (input : String)
  | redefinedOutput (output : String)
  | unproducedOutput
deriving DecidableEq, Repr

/-- Why an operator of a known kind cannot be converted. -/
inductive Obstacle where
  | noShape
  | noConvOptions
  | fusedActivation (activation : String)
deriving DecidableEq, Repr

/-- One side of an operator. -/
inductive Side where
  | inputs
  | outputs
deriving DecidableEq, Repr

/-- What is wrong with the input of a conversion. -/
inductive ConversionError where
  | unsupportedElementType (tensor elementType : String)
  | multiElementQuantization (tensor : String) (count : Nat)
  | negativeDimension (tensor : String) (dim : Int) (shape : List Int)
  | tensorIndexOutOfRange (index : Int) (count : Nat)
  | bufferIndexOutOfRange (tensor : String) (index : Nat)
  | missingData (tensor : String)
  | dataLengthMismatch (tensor : String) (shape : List Nat) (expected actual : Nat)
  | unsupportedOperator (code : String)
  | arity (operator : String) (index : Nat) (side : Side) (least most actual : Nat)
  | unsupportedAttribute (operator : String) (index : Nat) (obstacle : Obstacle)
  | layoutConflict (tensor : String) (registered : Option Layout) (requested : Layout)
  | initializerConflict (tensor : String)
  | missingLayout (tensor : String)
  | unknownTensor (tensor : String)
  | subgraphCount (count : Nat)
  | validation (name : String) (defect : Defect)
deriving DecidableEq

/-! ## Broken invariants -/

/-- A broken condition between parts of the library. -/
inductive Violation where
  /-- Labels that the caller vouched for are no layout. -/
  | badLabels (reason : LabelError)
  | shapeRank (layout : Layout) (rank : Nat)
  | bufferSize (length : Nat) (shape : List Nat)
  | indexOutOfBounds
  | offsetUnderflow
  | backwardStatus (current next : Status)
  | untyped (tensor : String)
  | typedTwice (tensor : String)
  | coercedUntyped (tensor : String)
  | layoutAfterTransform (tensor : String)
  | edgeNotAttached (role : String) (op : OpId) (tensor : String)
  | parsedSynthetic (tensor : String)
  | transformedUnparsed (subject : String)
  | convertedUnparsed (subject : String)
  | rewrittenUnparsed (operator : String)
  | noLayout (tensor : String)
  | notOperand (tensor : TensorId) (side : Side) (operator : String)
  | noSource (operator : String)
  | notReshape (index : Nat)
  | notConvolution (index : Nat)
  | parsedTranspose
  | rankUnchanged (operator : String)
  | broadcastTooLate (operator : String)
  | emissionCycle
deriving DecidableEq

/-- Why a step of a conversion stops. -/
inductive Fault where
  | input (error : ConversionError)
  | invariant (violation : Violation)
deriving DecidableEq

/-! ## Warnings -/

/-- What a conversion reports without stopping. -/
inductive Warning where
  /-- A request for another layout was ignored. -/
  | keptLayout (tensor : String) (registered : Option Layout) (requested : Layout)
  /-- A request for a constant was ignored. -/
  | keptRuntimeValue (tensor : String)
  /-- A shape operand is no vector. -/
  | shapeOperandRank (tensor : String) (rank : Nat)
deriving DecidableEq

/-! ## Texts -/

def Defect.message : Defect → String
  | .labels reason => reason.message
  | .layoutRank layout tensor =>
      s!"rank-{layout} layout cannot tag a rank-{tensor} tensor"
  | .weightsRank shape =>
      "convolution weights must be rank 4, found " ++ Text.natList shape
  | .activationRank shape =>
      "convolution activations must be rank 4, found " ++ Text.natList shape
  | .broadcastRank operand layout =>
      s!"rank-{operand} operand cannot be broadcast to rank {layout}"
  | .noTensorName => "tensor has no name"
  | .negativeDimension dim => s!"negative dimension {dim}"
  | .dataType data tensor =>
      "data holds " ++ data.name ++ " but tensor is " ++ tensor.name
  | .dataCount count dims =>
      s!"{count} elements do not fill dims " ++ Text.intList dims
  | .noOpType => "node has no op type"
  | .unnamedOutput => "node outputs must be named"
  | .undefinedInput input => s!"input {input} is used before it is defined"
  | .redefinedOutput output => s!"output {output} is defined more than once"
  | .unproducedOutput => "graph output is never produced"

def Obstacle.message : Obstacle → String
  | .noShape => "no shape operand and no new_shape option"
  | .noConvOptions => "missing Conv2D options"
  | .fusedActivation activation => "fused activation " ++ activation

def Side.name : Side → String
  | .inputs => "inputs"
  | .outputs => "outputs"

/-- An accepted operand count: one number, or a closed range. -/
def countRange (least most : Nat) : String :=
  if least = most then toString least else s!"{least}..={most}"

def ConversionError.message : ConversionError → String
  | .unsupportedElementType tensor elementType =>
      s!"tensor <{tensor}> uses element type {elementType} which has no target counterpart"
  | .multiElementQuantization tensor count =>
      s!"tensor <{tensor}> carries {count} quantization parameters; only per-tensor quantization is supported"
  | .negativeDimension tensor dim shape =>
      s!"tensor <{tensor}> has negative dimension {dim} in shape " ++ Text.intList shape
  | .tensorIndexOutOfRange index count =>
      s!"tensor index {index} is out of range for a subgraph with {count} tensors"
  | .bufferIndexOutOfRange tensor index =>
      s!"buffer index {index} of tensor <{tensor}> is out of range"
  | .missingData tensor => s!"initializer <{tensor}> has no data"
  | .dataLengthMismatch tensor shape expected actual =>
      s!"initializer <{tensor}> holds {actual} elements but its shape " ++
        Text.natList shape ++ s!" implies {expected}"
  | .unsupportedOperator code => s!"operator code {code} is not supported"
  | .arity operator index side least most actual =>
      s!"operator {operator} (#{index}) expects " ++ countRange least most ++ " " ++
        side.name ++ s!", found {actual}"
  | .unsupportedAttribute operator index obstacle =>
      s!"operator {operator} (#{index}) is unsupported: " ++ obstacle.message
  | .layoutConflict tensor registered requested =>
      s!"tensor <{tensor}> is registered with layout " ++ Layout.optionText registered ++
        " but a consumer requested " ++ requested.display
  | .initializerConflict tensor =>
      s!"tensor <{tensor}> was registered as a runtime value but is requested as an initializer"
  | .missingLayout tensor => s!"requires layout description for <{tensor}>"
  | .unknownTensor tensor =>
      s!"explicit layout names tensor <{tensor}> which is not part of the subgraph"
  | .subgraphCount count => s!"model has {count} subgraphs; exactly one is supported"
  | .validation name defect =>
      s!"target validation failed for <{name}>: " ++ defect.message

def Violation.message : Violation → String
  | .badLabels reason => reason.message
  | .shapeRank layout rank =>
      "cannot apply rank-" ++ toString layout.rank ++ " layout " ++ layout.display ++
        s!" to a rank-{rank} shape"
  | .bufferSize length shape =>
      s!"buffer of {length} elements does not match shape " ++ Text.natList shape
  | .indexOutOfBounds => "index out of bounds"
  | .offsetUnderflow => "attempt to subtract with overflow"
  | .backwardStatus current next =>
      "illegal lifecycle transition " ++ current.name ++ " -> " ++ next.name
  | .untyped tensor => s!"tensor <{tensor}> has no element type yet"
  | .typedTwice tensor => s!"element type of <{tensor}> assigned twice"
  | .coercedUntyped tensor => s!"cannot coerce untyped tensor <{tensor}>"
  | .layoutAfterTransform tensor => s!"layout of <{tensor}> changed after transform"
  | .edgeNotAttached role op tensor =>
      role ++ " " ++ op.text ++ s!" is not attached to <{tensor}>"
  | .parsedSynthetic tensor => s!"synthesized tensor <{tensor}> cannot be parsed"
  | .transformedUnparsed subject => subject ++ " transformed before parse"
  | .convertedUnparsed subject => subject ++ " converted before parse"
  | .rewrittenUnparsed operator => operator ++ " rewritten before parse"
  | .noLayout tensor => s!"tensor <{tensor}> has no layout to apply"
  | .notOperand tensor .inputs operator => tensor.text ++ " is not an input of " ++ operator
  | .notOperand tensor .outputs operator => tensor.text ++ " is not an output of " ++ operator
  | .noSource operator => operator ++ " has no source counterpart"
  | .notReshape index => s!"operator #{index} is not a reshape"
  | .notConvolution index => s!"operator #{index} is not a convolution"
  | .parsedTranspose => "transpose operators are only synthesized"
  | .rankUnchanged operator => "broadcast reshape " ++ operator ++ " does not change rank"
  | .broadcastTooLate operator =>
      "broadcast reshape for " ++ operator ++ " must be inserted between parse and transform"
  | .emissionCycle => "operators are spliced around each other in a cycle"

def Warning.message : Warning → String
  | .keptLayout tensor registered requested =>
      (ConversionError.layoutConflict tensor registered requested).message ++
        "; keeping the registered layout"
  | .keptRuntimeValue tensor =>
      (ConversionError.initializerConflict tensor).message ++
        "; keeping it as a runtime value"
  | .shapeOperandRank tensor rank =>
      "Shape operand " ++ tensor ++ s!" has rank {rank}; runtimes only accept rank-1 shapes, " ++
        "flattening initializers and leaving runtime values as they are"

/-- A lifecycle only moves forward. -/
def Status.advance (current next : Status) : Except Violation Status :=
  if current.stage ≤ next.stage then .ok next
  else .error (.backwardStatus current next)

end Relayout
