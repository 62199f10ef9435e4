/-
# Source models as JSON documents

The reader of source models.  Each record lists its fields once, in the order
in which they may also be given without names.
-/
import Relayout.Json.Word
import Relayout.Source.Model

namespace Relayout.Source

/-- An alternative without payload, found by its name. -/
def namedBare? {α : Type} (all : List α) (name : α → String) (j : Json) : Option α := do
  let (given, payload) ← j.toChoice?
  if Json.isBare payload then all.find? fun a => name a == given else none

def ElementType.ofJson? : Json → Option ElementType :=
  namedBare? ElementType.all ElementType.name

def Padding.ofJson? : Json → Option Padding :=
  namedBare? [.same, .valid] Padding.name

def Activation.ofJson? : Json → Option Activation :=
  namedBare? Activation.all Activation.name

def Opcode.ofJson? (j : Json) : Option Opcode := do
  match ← j.toChoice? with
  | ("Conv2d", payload) => if Json.isBare payload then some .conv2d else none
  | ("Reshape", payload) => if Json.isBare payload then some .reshape else none
  | ("Other", some code) => return .other (← code.toInt32?)
  | _ => none

def Quantization.ofJson? (j : Json) : Option Quantization := do
  let r ← j.toRecord? ["scale", "zero_point"]
  return {
    scale := ← r.required? "scale" (Json.toListOf? fun x =>
      (x.toFloat? .single).map (BitVec.ofNat 32))
    zeroPoint := ← r.required? "zero_point" (Json.toListOf? Json.toInt64?) }

def TensorDecl.ofJson? (j : Json) : Option TensorDecl := do
  let r ← j.toRecord? ["name", "shape", "dtype", "buffer", "quantization"]
  return {
    name := ← r.required? "name" Json.toText?
    shape := ← r.required? "shape" (Json.toListOf? Json.toInt64?)
    elementType := ← r.required? "dtype" ElementType.ofJson?
    buffer := ← r.defaulted? "buffer" Json.toUInt64? 0
    quantization := ← r.defaulted? "quantization" (Json.toOptionOf? Quantization.ofJson?) none }

def ConvOptions.ofJson? (j : Json) : Option ConvOptions := do
  let r ← j.toRecord? ["padding", "stride_w", "stride_h", "dilation_w_factor",
    "dilation_h_factor", "fused_activation_function"]
  return {
    padding := ← r.required? "padding" Padding.ofJson?
    strideW := ← r.required? "stride_w" Json.toUInt32?
    strideH := ← r.required? "stride_h" Json.toUInt32?
    dilationW := ← r.defaulted? "dilation_w_factor" Json.toUInt32? 1
    dilationH := ← r.defaulted? "dilation_h_factor" Json.toUInt32? 1
    activation := ← r.defaulted? "fused_activation_function" Activation.ofJson? .none }

/-- The options of a reshape are one list. -/
def newShapeOfJson? (j : Json) : Option (List Int32) := do
  let r ← j.toRecord? ["new_shape"]
  r.defaulted? "new_shape" (Json.toListOf? Json.toInt32?) []

def OperatorOptions.ofJson? (j : Json) : Option OperatorOptions := do
  match ← j.toChoice? with
  | ("None", payload) => if Json.isBare payload then some .none else Option.none
  | ("Conv2d", some options) => return .conv2d (← ConvOptions.ofJson? options)
  | ("Reshape", some options) => return .reshape (← newShapeOfJson? options)
  | _ => Option.none

def OperatorDecl.ofJson? (j : Json) : Option OperatorDecl := do
  let r ← j.toRecord? ["opcode_index", "inputs", "outputs", "options"]
  return {
    opcodeIndex := ← r.required? "opcode_index" Json.toUInt64?
    inputs := ← r.required? "inputs" (Json.toListOf? Json.toInt64?)
    outputs := ← r.required? "outputs" (Json.toListOf? Json.toInt64?)
    options := ← r.defaulted? "options" OperatorOptions.ofJson? .none }

def Subgraph.ofJson? (j : Json) : Option Subgraph := do
  let r ← j.toRecord? ["name", "tensors", "operators", "inputs", "outputs"]
  return {
    name := ← r.defaulted? "name" (Json.toOptionOf? Json.toText?) none
    tensors := ← r.required? "tensors" (Json.toListOf? TensorDecl.ofJson?)
    operators := ← r.required? "operators" (Json.toListOf? OperatorDecl.ofJson?)
    inputs := ← r.required? "inputs" (Json.toListOf? Json.toUInt64?)
    outputs := ← r.required? "outputs" (Json.toListOf? Json.toUInt64?) }

/-- The bytes of a buffer. -/
def bufferOfJson? (j : Json) : Option (List UInt8) := do
  let r ← j.toRecord? ["data"]
  r.defaulted? "data" (Json.toListOf? Json.toUInt8?) []

namespace Model

def ofJson? (j : Json) : Option Model := do
  let r ← j.toRecord? ["version", "description", "operator_codes", "buffers", "subgraphs"]
  return {
    version := ← r.defaulted? "version" Json.toUInt32? 0
    description := ← r.defaulted? "description" (Json.toOptionOf? Json.toText?) none
    operatorCodes := ← r.required? "operator_codes" (Json.toListOf? Opcode.ofJson?)
    buffers := ← r.required? "buffers" (Json.toListOf? bufferOfJson?)
    subgraphs := ← r.required? "subgraphs" (Json.toListOf? Subgraph.ofJson?) }

/-- The model written by a document. -/
def parse (document : String) : Option Model := (Json.parse document).bind ofJson?

end Model

end Relayout.Source
