/-
# Source models

A channel-last network as it is stored: a table of operator codes, raw
constant buffers, and subgraphs whose tensors and operators refer to each
other and to the tables by index.  Nothing here is checked; indices may
dangle, and every lookup says so.
-/
import Relayout.Fault

namespace Relayout.Source

/-- Element types of a source tensor. -/
inductive ElementType where
  | float32
  | float16
  | int32
  | uint8
  | int64
  | string
  | bool
  | int16
  | complex64
  | int8
  | float64
deriving DecidableEq, Repr

namespace ElementType

def all : List ElementType :=
  [.float32, .float16, .int32, .uint8, .int64, .string, .bool, .int16, .complex64,
    .int8, .float64]

def name : ElementType → String
  | .float32 => "Float32"
  | .float16 => "Float16"
  | .int32 => "Int32"
  | .uint8 => "Uint8"
  | .int64 => "Int64"
  | .string => "String"
  | .bool => "Bool"
  | .int16 => "Int16"
  | .complex64 => "Complex64"
  | .int8 => "Int8"
  | .float64 => "Float64"

/-- The element type of the converted tensor; texts and complex numbers have
none. -/
def converted? : ElementType → Option Relayout.ElementType
  | .float32 => some .float32
  | .float16 => some .float16
  | .int32 => some .int32
  | .uint8 => some .uint8
  | .int64 => some .int64
  | .string => none
  | .bool => some .bool
  | .int16 => some .int16
  | .complex64 => none
  | .int8 => some .int8
  | .float64 => some .float64

end ElementType

/-- What an operator does; codes without a conversion are kept as numbers. -/
inductive Opcode where
  | conv2d
  | reshape
  | other (code : Int32)
deriving DecidableEq, Repr

def Opcode.name : Opcode → String
  | .conv2d => "Conv2d"
  | .reshape => "Reshape"
  | .other code => "builtin#" ++ toString code.toInt

/-- Affine quantization parameters; scales are single-precision patterns. -/
structure Quantization where
  scale : List (BitVec 32)
  zeroPoint : List Int64
deriving DecidableEq, Repr

/-- A tensor as declared by a subgraph. -/
structure TensorDecl where
  name : String
  shape : List Int64
  elementType : ElementType
  /-- Position in the model's buffers. -/
  buffer : UInt64
  quantization : Option Quantization
deriving DecidableEq, Repr

/-- How a convolution treats the border. -/
inductive Padding where
  | same
  | valid
deriving DecidableEq, Repr

def Padding.name : Padding → String
  | .same => "Same"
  | .valid => "Valid"

/-- A function fused behind an operator. -/
inductive Activation where
  | none
  | relu
  | reluN1To1
  | relu6
  | tanh
deriving DecidableEq, Repr

def Activation.all : List Activation := [.none, .relu, .reluN1To1, .relu6, .tanh]

def Activation.name : Activation → String
  | .none => "None"
  | .relu => "Relu"
  | .reluN1To1 => "ReluN1To1"
  | .relu6 => "Relu6"
  | .tanh => "Tanh"

structure ConvOptions where
  padding : Padding
  strideW : UInt32
  strideH : UInt32
  dilationW : UInt32
  dilationH : UInt32
  activation : Activation
deriving DecidableEq, Repr

/-- Options of an operator, by kind. -/
inductive OperatorOptions where
  | none
  | conv2d (options : ConvOptions)
  | reshape (newShape : List Int32)
deriving DecidableEq, Repr

/-- An operator as declared by a subgraph. -/
structure OperatorDecl where
  /-- Position in the model's operator codes. -/
  opcodeIndex : UInt64
  /-- Tensor indices; a negative one marks an operand that is left out. -/
  inputs : List Int64
  outputs : List Int64
  options : OperatorOptions
deriving DecidableEq, Repr

structure Subgraph where
  name : Option String
  tensors : List TensorDecl
  operators : List OperatorDecl
  inputs : List UInt64
  outputs : List UInt64
deriving DecidableEq, Repr

structure Model where
  version : UInt32
  description : Option String
  operatorCodes : List Opcode
  buffers : List (List UInt8)
  subgraphs : List Subgraph
deriving DecidableEq, Repr

namespace Subgraph

/-- The tensor at an index as operators store it. -/
def tensor (g : Subgraph) (index : Int64) : Except ConversionError TensorDecl :=
  let found := if 0 ≤ index.toInt then g.tensors[index.toInt.toNat]? else none
  match found with
  | some t => .ok t
  | none => .error (.tensorIndexOutOfRange index.toInt g.tensors.length)

/-- The index of the first tensor with a given name. -/
def tensorIndex? (g : Subgraph) (name : String) : Option Nat :=
  g.tensors.findIdx? fun t => t.name == name

end Subgraph

namespace Model

/-- What an operator does; a dangling code stands for an unknown one. -/
def opcode (m : Model) (op : OperatorDecl) : Opcode :=
  m.operatorCodes[op.opcodeIndex.toNat]?.getD (.other (-1))

/-- The raw bytes behind a tensor; runtime tensors refer to an empty buffer. -/
def bufferData (m : Model) (t : TensorDecl) : Except ConversionError (List UInt8) :=
  match m.buffers[t.buffer.toNat]? with
  | some bytes => .ok bytes
  | none => .error (.bufferIndexOutOfRange t.name t.buffer.toNat)

end Model

end Relayout.Source
