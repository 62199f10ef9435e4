/-
# Operators

What a graph under conversion computes with.  Convolutions and reshapes come
from the source; transposes, and reshapes that only lift the rank of an
operand, are synthesized.  An operator refers to its operands by identifier,
and holds the operators that are emitted right before and right after it.
-/
import Relayout.Step
import Relayout.Source.Model
import Relayout.Target.Model

namespace Relayout

/-- How a convolution pads its input. -/
inductive AutoPad where
  | sameUpper
  | valid
deriving DecidableEq, Repr

namespace AutoPad

def text : AutoPad → String
  | .sameUpper => "SAME_UPPER"
  | .valid => "VALID"

def ofPadding : Source.Padding → AutoPad
  | .same => .sameUpper
  | .valid => .valid

end AutoPad

/-- Parameters of a convolution, height before width. -/
structure Convolution where
  autoPad : AutoPad
  strides : List Int64
  dilations : List Int64
  kernelShape : List Int64
deriving DecidableEq, Repr

/-- Parameters that nothing is known about. -/
def Convolution.unread : Convolution := ⟨.valid, [], [], []⟩

/-- What an operator does. -/
inductive Kind where
  | conv (convolution : Convolution)
  /-- Keeps the elements and their order.  One that lifts a rank has its shape
  operand moved along with the layout of its output. -/
  | reshape (liftsRank : Bool)
  | transpose (perm : List Nat)
deriving DecidableEq, Repr

namespace Kind

/-- What an operator code calls for. -/
def ofOpcode : Source.Opcode → Except ConversionError Kind
  | .conv2d => .ok (.conv .unread)
  | .reshape => .ok (.reshape false)
  | .other code => .error (.unsupportedOperator (Source.Opcode.other code).name)

/-- The name of the kind in a converted graph. -/
def name : Kind → String
  | .conv _ => "Conv"
  | .reshape _ => "Reshape"
  | .transpose _ => "Transpose"

/-- The parameters written into a converted node. -/
def attributes : Kind → List (String × Target.Attribute)
  | .conv c =>
      [("auto_pad", .text c.autoPad.text), ("dilations", .ints c.dilations),
        ("group", .int 1), ("kernel_shape", .ints c.kernelShape), ("strides", .ints c.strides)]
  | .reshape _ => []
  | .transpose perm => [("perm", .ints (perm.map Int64.ofNat))]

end Kind

/-- An operator of the graph under conversion. -/
structure Operator where
  /-- Position in the operators of the subgraph; synthesized ones have none. -/
  index : Option Nat
  name : String
  kind : Kind
  inputs : List TensorId
  outputs : List TensorId
  /-- Operators emitted right before this one. -/
  pre : List OpId
  /-- Operators emitted right after this one. -/
  post : List OpId
  status : Status
deriving DecidableEq, Repr

namespace Operator

/-- An operator that is not wired yet. -/
def fresh (index : Option Nat) (name : String) (kind : Kind) : Operator where
  index := index
  name := name
  kind := kind
  inputs := []
  outputs := []
  pre := []
  post := []
  status := .inited

def isSynthetic (op : Operator) : Bool := op.index.isNone

/-- `Reshape(z)#0`; a synthesized operator has no number. -/
def display (op : Operator) : String :=
  let text := op.kind.name ++ "(" ++ op.name ++ ")"
  match op.index with
  | some i => text ++ "#" ++ toString i
  | none => text

/-- The operand in an input slot, which must exist. -/
def input (op : Operator) (slot : Nat) : Except Violation TensorId := entryAt op.inputs slot

/-- The operand in an output slot, which must exist. -/
def output (op : Operator) (slot : Nat) : Except Violation TensorId := entryAt op.outputs slot

def addInput (op : Operator) (t : TensorId) : Operator := { op with inputs := op.inputs ++ [t] }

def addOutput (op : Operator) (t : TensorId) : Operator :=
  { op with outputs := op.outputs ++ [t] }

def addPre (op : Operator) (other : OpId) : Operator := { op with pre := op.pre ++ [other] }

def addPost (op : Operator) (other : OpId) : Operator := { op with post := op.post ++ [other] }

/-- The first input slot that holds `old` is pointed at `new`. -/
def replaceInput (op : Operator) (old new : TensorId) : Except Violation Operator :=
  match op.inputs.idxOf? old with
  | some i => .ok { op with inputs := op.inputs.set i new }
  | none => .error (.notOperand old .inputs op.name)

/-- The first output slot that holds `old` is pointed at `new`. -/
def replaceOutput (op : Operator) (old new : TensorId) : Except Violation Operator :=
  match op.outputs.idxOf? old with
  | some i => .ok { op with outputs := op.outputs.set i new }
  | none => .error (.notOperand old .outputs op.name)

/-- The lifecycle moved on. -/
def advance (op : Operator) (next : Status) : Except Violation Operator := do
  return { op with status := ← op.status.advance next }

/-- All operands are known. -/
def setParsed (op : Operator) : Except Violation Operator := op.advance .parsed

end Operator

/-- An operand count inside the accepted range. -/
def checkArity (operator : String) (index : Nat) (side : Side) (least most actual : Nat) :
    Except ConversionError Unit :=
  if least ≤ actual ∧ actual ≤ most then .ok ()
  else .error (.arity operator index side least most actual)

end Relayout
