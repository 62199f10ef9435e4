/-
# Target models

A converted, channel-first network: nodes in the order in which they run,
tensors with their dimensions, and the constant data of initializers.  Floats
are bit patterns, so equality of models is equality of bits; `equal` is the
numeric comparison, under which a NaN differs even from itself.
-/
import Relayout.Buffer
import Relayout.SortedMap

namespace Relayout.Target

/-- A tensor of a converted graph; initializers carry data. -/
structure TensorNode where
  name : String
  elementType : ElementType
  dims : List Int64
  data : Option Buffer
deriving DecidableEq, Repr

/-- A parameter of a node. -/
inductive Attribute where
  | int (value : Int64)
  | ints (values : List Int64)
  /-- A single-precision pattern. -/
  | float (bits : BitVec 32)
  | text (value : String)
deriving DecidableEq, Repr

/-- One step of a converted graph.  Operands are referred to by name; an empty
name marks one that is left out. -/
structure Node where
  name : String
  opType : String
  inputs : List String
  outputs : List String
  attributes : SortedMap Attribute
deriving DecidableEq, Repr

structure Graph where
  name : String
  nodes : List Node
  initializers : List TensorNode
  inputs : List TensorNode
  outputs : List TensorNode
  valueInfos : List TensorNode
deriving DecidableEq, Repr

structure Model where
  irVersion : Int64
  opsetVersion : Int64
  producerName : String
  producerVersion : String
  graph : Graph
deriving DecidableEq, Repr

/-! ## Views -/

/-- The parameter of a given name. -/
def Node.attribute? (n : Node) (key : String) : Option Attribute := n.attributes.find? key

namespace Graph

/-- The node of a given name. -/
def node? (g : Graph) (name : String) : Option Node :=
  g.nodes.find? fun n => n.name == name

/-- What the nodes do, in order. -/
def opTypes (g : Graph) : List String := g.nodes.map Node.opType

/-- All tensors: initializers, inputs, outputs, then the values between. -/
def tensors (g : Graph) : List TensorNode :=
  g.initializers ++ g.inputs ++ g.outputs ++ g.valueInfos

/-- The first tensor of a given name. -/
def tensor? (g : Graph) (name : String) : Option TensorNode :=
  g.tensors.find? fun t => t.name == name

end Graph

/-! ## Numeric comparison -/

/-- Element-wise comparison of buffers of one type. -/
def bufferEqual (a b : Buffer) : Bool :=
  a.elementType == b.elementType &&
    (a.elements.map BitVec.toNat).isEqv (b.elements.map BitVec.toNat) fun x y =>
      match a.elementType.reading with
      | .float f => f.equal x y
      | _ => x == y

def dataEqual : Option Buffer → Option Buffer → Bool
  | none, none => true
  | some a, some b => bufferEqual a b
  | _, _ => false

def TensorNode.equal (a b : TensorNode) : Bool :=
  a.name == b.name && a.elementType == b.elementType && a.dims == b.dims &&
    dataEqual a.data b.data

def Attribute.equal : Attribute → Attribute → Bool
  | .float a, .float b => Format.single.equal a.toNat b.toNat
  | a, b => a == b

def Node.equal (a b : Node) : Bool :=
  a.name == b.name && a.opType == b.opType && a.inputs == b.inputs &&
    a.outputs == b.outputs &&
    a.attributes.entries.isEqv b.attributes.entries fun (k, v) (l, w) =>
      k == l && v.equal w

def Graph.equal (a b : Graph) : Bool :=
  a.name == b.name && a.nodes.isEqv b.nodes Node.equal &&
    a.initializers.isEqv b.initializers TensorNode.equal &&
    a.inputs.isEqv b.inputs TensorNode.equal &&
    a.outputs.isEqv b.outputs TensorNode.equal &&
    a.valueInfos.isEqv b.valueInfos TensorNode.equal

def Model.equal (a b : Model) : Bool :=
  a.irVersion == b.irVersion && a.opsetVersion == b.opsetVersion &&
    a.producerName == b.producerName && a.producerVersion == b.producerVersion &&
    a.graph.equal b.graph

end Relayout.Target
