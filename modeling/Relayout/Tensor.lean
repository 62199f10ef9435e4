/-
# Tensors

A value that flows through the graph under conversion: an activation, or a
constant with data.  A tensor is registered under its name, parsed from its
declaration, moved to the target layout at most once, and converted.  The
operators at its two ends are recorded as edges.
-/
import Relayout.Scope
import Relayout.Step
import Relayout.Target.Check

namespace Relayout

/-- A value of the graph under conversion. -/
structure Tensor where
  /-- Where the registry put the tensor. -/
  id : TensorId
  name : String
  /-- Position in the tensors of the subgraph; synthesized tensors have none. -/
  sourceIndex : Option Nat
  shape : List Nat
  elementType : Option ElementType
  isInitializer : Bool
  data : Option Buffer
  /-- Quantization scale, a single-precision pattern. -/
  scale : BitVec 32
  zeroPoint : Int64
  layout : Option Layout
  producers : List OpId
  consumers : List OpId
  status : Status
deriving DecidableEq

/-- A list with one more member, unless it has it already. -/
def attach (op : OpId) (edges : List OpId) : List OpId :=
  if op ∈ edges then edges else edges ++ [op]

namespace Tensor

/-- The scale of a tensor without quantization: one. -/
def defaultScale : BitVec 32 := 0x3f800000

/-- The zero point of a tensor without quantization. -/
def defaultZeroPoint : Int64 := 127

/-- A tensor of which nothing but its place, its name and the first request is
known. -/
def fresh (name : String) (sourceIndex : Option Nat) (layout : Option Layout)
    (isInitializer : Bool) (id : TensorId) : Tensor where
  id := id
  name := name
  sourceIndex := sourceIndex
  shape := []
  elementType := none
  isInitializer := isInitializer
  data := none
  scale := defaultScale
  zeroPoint := defaultZeroPoint
  layout := layout
  producers := []
  consumers := []
  status := .inited

/-! ## Views -/

def rank (t : Tensor) : Nat := t.shape.length

/-- Number of elements that the shape calls for. -/
def elementCount (t : Tensor) : Nat := Relayout.elementCount t.shape

/-- The element type, which must have been assigned. -/
def typed (t : Tensor) : Except Violation ElementType :=
  match t.elementType with
  | some type => .ok type
  | none => .error (.untyped t.name)

/-- A constant of rank zero with one element and no layout. -/
def isScalar (t : Tensor) : Bool :=
  t.layout.isNone && t.shape.isEmpty && t.data.any fun data => data.length == 1

/-- Quantized activations have the unsigned 8-bit type. -/
def isQuantized (t : Tensor) : Bool := t.elementType == some .uint8

/-- `<z>(float32,[1, 2])` -/
def display (t : Tensor) : String :=
  "<" ++ t.name ++ ">(" ++ (t.elementType.map ElementType.name).getD "?" ++ "," ++
    Text.natList t.shape ++ ")"

/-! ## Types and data -/

/-- A type is assigned once. -/
def assignType (t : Tensor) (type : ElementType) : Except Violation Tensor :=
  if t.elementType.isNone then .ok { t with elementType := some type }
  else .error (.typedTwice t.name)

/-- Another type for a typed tensor; its data is cast along. -/
def coerceType (t : Tensor) (type : ElementType) : Except Violation Tensor :=
  if t.elementType.isSome then
    .ok { t with elementType := some type, data := t.data.map fun data => data.cast type }
  else .error (.coercedUntyped t.name)

/-- A layout for a tensor that has not been moved yet. -/
def setLayout (t : Tensor) (l : Layout) : Except Violation Tensor :=
  if t.status.isTransformed then .error (.layoutAfterTransform t.name)
  else .ok { t with layout := some l }

/-- The lifecycle moved on. -/
def advance (t : Tensor) (next : Status) : Except Violation Tensor := do
  return { t with status := ← t.status.advance next }

/-- Everything about the tensor is known. -/
def setParsed (t : Tensor) : Except Violation Tensor := t.advance .parsed

/-! ## Edges -/

def addProducer (t : Tensor) (op : OpId) : Tensor :=
  { t with producers := attach op t.producers }

def addConsumer (t : Tensor) (op : OpId) : Tensor :=
  { t with consumers := attach op t.consumers }

def removeConsumer (t : Tensor) (op : OpId) : Tensor :=
  { t with consumers := t.consumers.filter (· ≠ op) }

/-- The producer `old`, which must be attached, gives its place to `new`. -/
def replaceProducer (t : Tensor) (old new : OpId) : Except Violation Tensor :=
  match t.producers.idxOf? old with
  | some i => .ok { t with producers := t.producers.set i new }
  | none => .error (.edgeNotAttached "producer" old t.name)

/-- The consumer `old`, which must be attached, gives its place to `new`. -/
def replaceConsumer (t : Tensor) (old new : OpId) : Except Violation Tensor :=
  match t.consumers.idxOf? old with
  | some i => .ok { t with consumers := t.consumers.set i new }
  | none => .error (.edgeNotAttached "consumer" old t.name)

/-! ## Reading a declaration -/

/-- The declared dimensions, none of which may be negative. -/
def declaredShape (t : Tensor) (decl : Source.TensorDecl) :
    Except ConversionError (List Nat) :=
  match decl.shape.find? fun d => decide (d.toInt < 0) with
  | some d => .error (.negativeDimension t.name d.toInt (decl.shape.map Int64.toInt))
  | none => .ok (decl.shape.map fun d => d.toInt.toNat)

/-- The type that converted tensors have for the declared one. -/
def declaredType (t : Tensor) (decl : Source.TensorDecl) : Except ConversionError ElementType :=
  match decl.elementType.converted? with
  | some type => .ok type
  | none => .error (.unsupportedElementType t.name decl.elementType.name)

/-- The one scale and zero point of a declared quantization. -/
def declaredQuantization (t : Tensor) (q : Source.Quantization) :
    Except ConversionError (BitVec 32 × Int64) :=
  match q.scale, q.zeroPoint with
  | [scale], [zeroPoint] => .ok (scale, zeroPoint)
  | scales, zeroPoints =>
      .error (.multiElementQuantization t.name (max scales.length zeroPoints.length))

/-- The elements behind a constant: as many as the shape calls for. -/
def declaredData (t : Tensor) (type : ElementType) (bytes : List UInt8) :
    Except ConversionError Buffer :=
  let mismatch (actual : Nat) : ConversionError :=
    .dataLengthMismatch t.name t.shape t.elementCount actual
  if bytes.isEmpty then .error (.missingData t.name)
  else
    match Buffer.ofBytes? type bytes with
    | none => .error (mismatch (bytes.length / type.byteSize))
    | some data =>
        if data.length = t.elementCount then .ok data else .error (mismatch data.length)

/-- The declaration of a tensor that comes from the source. -/
def declaration (t : Tensor) (s : Scope) : Step Tensor Source.TensorDecl :=
  match t.sourceIndex with
  | some i => monadLift (s.subgraph.tensor (.ofNat i))
  | none => Step.violate (.parsedSynthetic t.name)

/-- Quantization parameters, if any are declared. -/
def parseQuantization (decl : Source.TensorDecl) : Step Tensor Unit := do
  match decl.quantization with
  | none => return ()
  | some q =>
      let (scale, zeroPoint) ← (← get).declaredQuantization q
      modify fun t => { t with scale := scale, zeroPoint := zeroPoint }

/-- The data of a constant.  A tensor with bytes behind it is a constant,
whatever the first request took it for. -/
def parseData (s : Scope) (decl : Source.TensorDecl) (type : ElementType) :
    Step Tensor Unit := do
  let bytes ← s.model.bufferData decl
  modify fun t => { t with isInitializer := t.isInitializer || !bytes.isEmpty }
  let t ← get
  if t.isInitializer then
    let data ← t.declaredData type bytes
    set { t with data := some data }

/-- Read the declaration: shape, element type, quantization and data, in this
order.  A tensor is read once. -/
def parse (s : Scope) : Step Tensor Unit := do
  let t ← get
  if t.status.isParsed then return ()
  let decl ← t.declaration s
  let shape ← t.declaredShape decl
  set { t with shape := shape }
  let type ← t.declaredType decl
  Step.update (·.assignType type)
  parseQuantization decl
  parseData s decl type
  Step.update setParsed

/-! ## Moving -/

/-- A tensor whose shape and data are moved to the target order of a
layout. -/
def permuted (t : Tensor) (l : Layout) : Except Violation Tensor := do
  return { t with
    data := ← t.data.mapM fun data => data.permute l t.shape
    shape := ← l.permute t.shape }

/-- Move a parsed tensor to the target order of its layout, once. -/
def transform (t : Tensor) : Except Violation Tensor :=
  if !t.status.isParsed then .error (.transformedUnparsed s!"tensor <{t.name}>")
  else if t.status.isTransformed then .ok t
  else
    match t.layout with
    | none => .error (.noLayout t.name)
    | some l => do
        let t ← if l.isMatch then pure t else t.permuted l
        t.advance .transformed

/-! ## Converting -/

/-- The data that goes with the converted tensor; a constant must have some. -/
def emittedData (t : Tensor) : Except ConversionError (Option Buffer) :=
  if t.isInitializer then
    match t.data with
    | some data => .ok (some data)
    | none => .error (.missingData t.name)
  else .ok none

/-- The tensor of the converted graph, checked. -/
def convert : Step Tensor Target.TensorNode := do
  let t ← get
  Step.require t.status.isParsed (.convertedUnparsed s!"tensor <{t.name}>")
  let data ← t.emittedData
  let type ← t.typed
  let node : Target.TensorNode := ⟨t.name, type, t.shape.map Int64.ofNat, data⟩
  Target.checkTensor node
  Step.update (·.advance .converted)
  return node

end Tensor

end Relayout
