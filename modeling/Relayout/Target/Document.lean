/-
# Target models as JSON documents

The reader and the writer of target models.  The writer gives every field of a
record, in order; floats are written with the fewest digits that identify
them, and what is no finite number is written as null, which no reader of
floats takes.  Half-precision elements are written as their bits.
-/
import Relayout.Json.Printer
import Relayout.Json.Word
import Relayout.Number.Shortest
import Relayout.Target.Model

namespace Relayout.Target

/-! ## Floats -/

/-- Single-precision floats are positional from a millionth to below ten
trillion; a whole number keeps its point. -/
def singleStyle : FloatStyle :=
  ⟨fun e => decide (-6 ≤ e ∧ e ≤ 12), true, .toEven⟩

/-- Double-precision floats are positional from a hundred-thousandth to below
ten quadrillion. -/
def doubleStyle : FloatStyle :=
  ⟨fun e => decide (-5 ≤ e ∧ e ≤ 15), true, .toEven⟩

/-- A pattern as a number, or null. -/
def floatToJson (style : FloatStyle) (f : Format) (bits : Nat) : Json :=
  if f.isFinite bits then .number (style.numeral f bits) else .null

/-! ## Element types and buffers -/

def elementTypeName : ElementType → String
  | .float32 => "Float"
  | .uint8 => "Uint8"
  | .int8 => "Int8"
  | .int16 => "Int16"
  | .int32 => "Int32"
  | .int64 => "Int64"
  | .bool => "Bool"
  | .float16 => "Float16"
  | .float64 => "Double"

/-- The name under which the data of an element type is given. -/
def dataName : ElementType → String
  | .float32 => "F32"
  | .uint8 => "U8"
  | .int8 => "I8"
  | .int16 => "I16"
  | .int32 => "I32"
  | .int64 => "I64"
  | .bool => "Bool"
  | .float16 => "F16"
  | .float64 => "F64"

def elementTypeOfJson? (j : Json) : Option ElementType := do
  let (given, payload) ← j.toChoice?
  if Json.isBare payload then ElementType.all.find? fun t => elementTypeName t == given
  else none

/-- One element. -/
def elementToJson (t : ElementType) (b : BitVec t.bitWidth) : Json :=
  match t with
  | .float32 => floatToJson singleStyle .single b.toNat
  | .float64 => floatToJson doubleStyle .double b.toNat
  | .float16 | .uint8 => .ofInt b.toNat
  | .int8 | .int16 | .int32 | .int64 => .ofInt b.toInt
  | .bool => .bool (b.toNat == 1)

def elementOfJson? (t : ElementType) (j : Json) : Option (BitVec t.bitWidth) :=
  match t with
  | .float32 => (j.toFloat? .single).map (BitVec.ofNat _)
  | .float64 => (j.toFloat? .double).map (BitVec.ofNat _)
  | .float16 => (j.toUnsigned? 16).map (BitVec.ofNat _)
  | .uint8 => (j.toUnsigned? 8).map (BitVec.ofNat _)
  | .int8 => (j.toSigned? 8).map (BitVec.ofInt _)
  | .int16 => (j.toSigned? 16).map (BitVec.ofInt _)
  | .int32 => (j.toSigned? 32).map (BitVec.ofInt _)
  | .int64 => (j.toSigned? 64).map (BitVec.ofInt _)
  | .bool => j.toBool?.map fun b => if b then 1 else 0

def bufferToJson (b : Buffer) : Json :=
  .ofFields [(dataName b.elementType, .array (b.elements.map (elementToJson b.elementType)))]

def bufferOfJson? (j : Json) : Option Buffer := do
  let (given, payload) ← j.toChoice?
  let t ← ElementType.all.find? fun t => dataName t == given
  return ⟨t, ← (← payload).toListOf? (elementOfJson? t)⟩

/-! ## Records -/

def textsToJson (ss : List String) : Json := .array (ss.map Json.ofString)

def intsToJson (is : List Int64) : Json := .array (is.map fun i => .ofInt i.toInt)

namespace TensorNode

def toJson (t : TensorNode) : Json :=
  .ofFields [("name", .ofString t.name), ("dtype", .ofString (elementTypeName t.elementType)),
    ("dims", intsToJson t.dims), ("data", (t.data.map bufferToJson).getD .null)]

def ofJson? (j : Json) : Option TensorNode := do
  let r ← j.toRecord? ["name", "dtype", "dims", "data"]
  return {
    name := ← r.required? "name" Json.toText?
    elementType := ← r.required? "dtype" elementTypeOfJson?
    dims := ← r.required? "dims" (Json.toListOf? Json.toInt64?)
    data := ← r.nullable? "data" bufferOfJson? }

end TensorNode

namespace Attribute

def toJson : Attribute → Json
  | .int i => .ofFields [("Int", .ofInt i.toInt)]
  | .ints is => .ofFields [("Ints", intsToJson is)]
  | .float bits => .ofFields [("Float", floatToJson singleStyle .single bits.toNat)]
  | .text s => .ofFields [("String", .ofString s)]

def ofJson? (j : Json) : Option Attribute := do
  match ← j.toChoice? with
  | ("Int", some v) => return .int (← v.toInt64?)
  | ("Ints", some v) => return .ints (← v.toListOf? Json.toInt64?)
  | ("Float", some v) => return .float (.ofNat 32 (← v.toFloat? .single))
  | ("String", some v) => return .text (← v.toText?)
  | _ => none

end Attribute

namespace Node

def toJson (n : Node) : Json :=
  .ofFields [("name", .ofString n.name), ("op_type", .ofString n.opType),
    ("inputs", textsToJson n.inputs), ("outputs", textsToJson n.outputs),
    ("attributes", .ofFields (n.attributes.entries.map fun (key, v) => (key, v.toJson)))]

def ofJson? (j : Json) : Option Node := do
  let r ← j.toRecord? ["name", "op_type", "inputs", "outputs", "attributes"]
  return {
    name := ← r.required? "name" Json.toText?
    opType := ← r.required? "op_type" Json.toText?
    inputs := ← r.required? "inputs" (Json.toListOf? Json.toText?)
    outputs := ← r.required? "outputs" (Json.toListOf? Json.toText?)
    attributes := SortedMap.ofEntries
      (← r.required? "attributes" (Json.toEntriesOf? Attribute.ofJson?)) }

end Node

namespace Graph

def toJson (g : Graph) : Json :=
  .ofFields [("name", .ofString g.name), ("nodes", .array (g.nodes.map Node.toJson)),
    ("initializers", .array (g.initializers.map TensorNode.toJson)),
    ("inputs", .array (g.inputs.map TensorNode.toJson)),
    ("outputs", .array (g.outputs.map TensorNode.toJson)),
    ("value_infos", .array (g.valueInfos.map TensorNode.toJson))]

def ofJson? (j : Json) : Option Graph := do
  let r ← j.toRecord? ["name", "nodes", "initializers", "inputs", "outputs", "value_infos"]
  return {
    name := ← r.required? "name" Json.toText?
    nodes := ← r.required? "nodes" (Json.toListOf? Node.ofJson?)
    initializers := ← r.required? "initializers" (Json.toListOf? TensorNode.ofJson?)
    inputs := ← r.required? "inputs" (Json.toListOf? TensorNode.ofJson?)
    outputs := ← r.required? "outputs" (Json.toListOf? TensorNode.ofJson?)
    valueInfos := ← r.required? "value_infos" (Json.toListOf? TensorNode.ofJson?) }

end Graph

namespace Model

def toJson (m : Model) : Json :=
  .ofFields [("ir_version", .ofInt m.irVersion.toInt),
    ("opset_version", .ofInt m.opsetVersion.toInt),
    ("producer_name", .ofString m.producerName),
    ("producer_version", .ofString m.producerVersion), ("graph", m.graph.toJson)]

def ofJson? (j : Json) : Option Model := do
  let r ← j.toRecord? ["ir_version", "opset_version", "producer_name", "producer_version",
    "graph"]
  return {
    irVersion := ← r.required? "ir_version" Json.toInt64?
    opsetVersion := ← r.required? "opset_version" Json.toInt64?
    producerName := ← r.required? "producer_name" Json.toText?
    producerVersion := ← r.required? "producer_version" Json.toText?
    graph := ← r.required? "graph" Graph.ofJson? }

/-- The document of a model. -/
def print (m : Model) : String := Json.print m.toJson

/-- The model written by a document. -/
def parse (document : String) : Option Model := (Json.parse document).bind ofJson?

end Model

end Relayout.Target
