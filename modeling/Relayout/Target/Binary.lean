/-
# Target models in binary

The codec of target models: fields in order, alternatives by the position of
their name, maps as lists of entries.  Bytes behind a model are left alone.
-/
import Relayout.Target.Model
import Relayout.Wire.Codec

namespace Relayout.Target

open Wire

/-- Element types in the order of their tags. -/
def elementTypeCodec : Codec ElementType :=
  .oneOf [.float32, .uint8, .int8, .int16, .int32, .int64, .bool, .float16, .float64]

/-- Kinds of data in the order of their tags. -/
def dataKindCodec : Codec ElementType :=
  .oneOf [.float32, .float16, .float64, .uint8, .int8, .int16, .int32, .int64, .bool]

/-- One element: a truth value is one of two bytes, any other element its
bits. -/
def elementCodec (t : ElementType) : Codec (BitVec t.bitWidth) :=
  match t with
  | .bool => Codec.truth.map BitVec.ofBool fun b => b == 1
  | t => .bits t.byteSize t.bitWidth

def bufferCodec : Codec Buffer :=
  (dataKindCodec.tagged fun t => (elementCodec t).list).map
    (fun p => ⟨p.1, p.2⟩) fun b => ⟨b.elementType, b.elements⟩

/-! ## Attributes -/

/-- The alternatives of an attribute. -/
inductive AttributeKind where
  | int
  | ints
  | float
  | text
deriving DecidableEq, Repr

namespace AttributeKind

/-- What an attribute of a kind holds. -/
def Payload : AttributeKind → Type
  | .int => Int64
  | .ints => List Int64
  | .float => BitVec 32
  | .text => String

def payloadCodec : (k : AttributeKind) → Codec k.Payload
  | .int => .int64
  | .ints => .list .int64
  | .float => .bits 4 32
  | .text => .text

end AttributeKind

/-- An attribute as its kind and what it holds. -/
def Attribute.split : Attribute → (k : AttributeKind) × k.Payload
  | .int i => ⟨.int, i⟩
  | .ints is => ⟨.ints, is⟩
  | .float bits => ⟨.float, bits⟩
  | .text s => ⟨.text, s⟩

def Attribute.join : (k : AttributeKind) × k.Payload → Attribute
  | ⟨.int, i⟩ => .int i
  | ⟨.ints, is⟩ => .ints is
  | ⟨.float, bits⟩ => .float bits
  | ⟨.text, s⟩ => .text s

def attributeCodec : Codec Attribute :=
  (Codec.tagged (.oneOf [.int, .ints, .float, .text]) AttributeKind.payloadCodec).map
    Attribute.join Attribute.split

/-! ## Records -/

def tensorNodeCodec : Codec TensorNode :=
  (Codec.text.pair <| elementTypeCodec.pair <| (Codec.list .int64).pair <|
      Codec.option bufferCodec).map
    (fun (name, elementType, dims, data) => ⟨name, elementType, dims, data⟩)
    fun t => (t.name, t.elementType, t.dims, t.data)

def nodeCodec : Codec Node :=
  (Codec.text.pair <| Codec.text.pair <| (Codec.list .text).pair <| (Codec.list .text).pair <|
      Codec.list (Codec.text.pair attributeCodec)).map
    (fun (name, opType, inputs, outputs, entries) =>
      ⟨name, opType, inputs, outputs, .ofEntries entries⟩)
    fun n => (n.name, n.opType, n.inputs, n.outputs, n.attributes.entries)

def graphCodec : Codec Graph :=
  (Codec.text.pair <| (Codec.list nodeCodec).pair <| (Codec.list tensorNodeCodec).pair <|
      (Codec.list tensorNodeCodec).pair <| (Codec.list tensorNodeCodec).pair <|
      Codec.list tensorNodeCodec).map
    (fun (name, nodes, initializers, inputs, outputs, valueInfos) =>
      ⟨name, nodes, initializers, inputs, outputs, valueInfos⟩)
    fun g => (g.name, g.nodes, g.initializers, g.inputs, g.outputs, g.valueInfos)

def modelCodec : Codec Model :=
  (Codec.int64.pair <| Codec.int64.pair <| Codec.text.pair <| Codec.text.pair graphCodec).map
    (fun (irVersion, opsetVersion, producerName, producerVersion, graph) =>
      ⟨irVersion, opsetVersion, producerName, producerVersion, graph⟩)
    fun m => (m.irVersion, m.opsetVersion, m.producerName, m.producerVersion, m.graph)

/-- The binary form of a model. -/
def Model.toBytes (m : Model) : List UInt8 := modelCodec.encode m

/-- The model at the front of a byte string. -/
def Model.ofBytes? (bytes : List UInt8) : Option Model :=
  (modelCodec.decode bytes).map fun (m, _) => m

end Relayout.Target
