/-
# Registering tensors

A graph has one tensor per name.  Every request for a tensor names it, by its
position in the source or by a synthesized name; the first request creates
the tensor, later ones find it.  A later request that wants another layout,
or a constant where a runtime value is registered, is a conflict: an error
when the scope is strict, otherwise a warning, and the tensor stays as it is.
-/
import Relayout.Graph.Basic
import Relayout.Number.Shortest

namespace Relayout

/-- What every synthesized name begins with. -/
def synthesizedName (role subject : String) : String :=
  "TFLITE2ONNX_" ++ role ++ "_" ++ subject

/-- Scalars in names are written positionally, as short as reads back, whole
numbers without a point; a draw goes up. -/
def scalarStyle : FloatStyle := ⟨fun _ => true, false, .up⟩

/-- A double in the name of a scalar. -/
def scalarText (bits : Nat) : String :=
  match Format.double.decode bits with
  | .nan => "NaN"
  | .infinite negative => if negative then "-inf" else "inf"
  | .finite .. => String.ofList (scalarStyle.numeral .double bits).text

namespace Graph

/-! ## Conflicts -/

/-- A conflict stops a strict conversion and is reported by any other. -/
def conflict (s : Scope) (e : ConversionError) (w : Warning) : Step Graph Unit :=
  if s.strict then Step.reject e else warn w

/-- A registered tensor against the layout that a request wants. -/
def checkLayout (s : Scope) (t : Tensor) : Option Layout → Step Graph Unit
  | none => pure ()
  | some requested =>
      if t.layout = some requested then pure ()
      else
        conflict s (.layoutConflict t.name t.layout requested)
          (.keptLayout t.name t.layout requested)

/-- A registered tensor against a request for a constant. -/
def checkConstant (s : Scope) (t : Tensor) (constant : Bool) : Step Graph Unit :=
  if constant && t.status.isParsed && !t.isInitializer then
    conflict s (.initializerConflict t.name) (.keptRuntimeValue t.name)
  else pure ()

/-! ## Requests -/

/-- The tensor at an index of the source, with the layout and the role that
the request takes it for. -/
def request (s : Scope) (index : Int64) (layout : Option Layout) (constant : Bool) :
    Step Graph TensorId := do
  let decl ← s.subgraph.tensor index
  match (← get).lookup? decl.name with
  | none => addTensor decl.name (.fresh decl.name (some index.toInt.toNat) layout constant)
  | some id =>
      let t ← tensor id
      checkLayout s t layout
      checkConstant s t constant
      return id

/-- The tensor at an index of the source, requested and read. -/
def requestParsed (s : Scope) (index : Int64) (layout : Option Layout) (constant : Bool) :
    Step Graph TensorId := do
  let id ← request s index layout constant
  onTensor id (Tensor.parse s)
  return id

/-- The tensor of a synthesized name, created by `make` on the first
request. -/
def registered (name : String) (make : Step Graph (TensorId → Tensor)) : Step Graph TensorId := do
  match (← get).lookup? name with
  | some id => return id
  | none => addTensor name (← make)

/-- A tensor that takes element type and quantization from another.  Shape and
data are left to the caller. -/
def derive (existing : TensorId) (name : String) (constant : Bool) : Step Graph TensorId :=
  registered name do
    let t ← tensor existing
    return fun id => { Tensor.fresh name none none constant id with
      elementType := t.elementType, scale := t.scale, zeroPoint := t.zeroPoint }

/-- A synthesized constant, complete from the start. -/
def constant (name : String) (shape : List Nat) (data : Buffer) (id : TensorId) : Tensor :=
  { Tensor.fresh name none none true id with
    shape := shape, elementType := some data.elementType, data := some data,
    status := .parsed }

/-- A constant of rank zero that holds a double, cast to the element type of
`reference`.  Equal scalars of one type are one tensor. -/
def scalar (reference : TensorId) (value : Nat) : Step Graph TensorId := do
  let type ← (← tensor reference).typed
  let name := synthesizedName "Scalar" (type.name ++ "_" ++ scalarText value)
  registered name (return constant name [] (.full type value 1))

/-- A vector of 64-bit integers named after its owner. -/
def vector (owner : String) (values : List Int) : Step Graph TensorId :=
  let name := synthesizedName "Vector" owner
  registered name (return constant name [values.length] (.ofInts .int64 values))

end Graph

end Relayout
