/-
# What a source asks for

The registry of a conversion is keyed by names, so what a source asks for is
said by names as well.  An operator is a call on named tensors; a call makes
requests, each for a tensor and perhaps for a layout.  None of this looks at a
graph: requests and calls are read off the declarations alone.
-/
import Relayout.Graph.Intake
import Relayout.Proofs.Declaration

namespace Relayout

/-- A tensor that is asked for by name, and the layout that it is wanted in. -/
abbrev Request := String × Option Layout

/-- An operator with its operands, by name; those that may be left out are
optional. -/
inductive Call where
  | conv (input weights : String) (bias : Option String) (output : String)
  | reshape (input : String) (shape : Option String) (output : String)
deriving DecidableEq

namespace Call

/-- The inputs; a shape that is left out is synthesized. -/
def inputs : Call → List String
  | .conv x w b _ => [x, w] ++ b.toList
  | .reshape x shape y => [x, shape.getD (synthesizedName "Vector" y)]

def output : Call → String
  | .conv _ _ _ y => y
  | .reshape _ _ y => y

/-- What an operator asks for, in order. -/
def requests : Call → List Request
  | .conv x w b y =>
      [(x, some .activation), (w, some .weights)] ++ b.toList.map (·, none) ++
        [(y, some .activation)]
  | .reshape x shape y =>
      [(x, none), (shape.getD (synthesizedName "Vector" y), none), (y, none)]

/-- The tensor of the source that an operator reads a shape from. -/
def shapes : Call → List String
  | .conv .. => []
  | .reshape _ shape _ => shape.toList

end Call

namespace Scope

variable (s : Scope)

/-- The name of the tensor at an index; a dangling index has none. -/
def nameAt? (index : Int64) : Option String :=
  match s.subgraph.tensor index with
  | .ok d => some d.name
  | .error _ => none

/-- The name of the tensor in a slot of a list of operands. -/
def nameIn? (indices : List Int64) (slot : Nat) : Option String :=
  indices[slot]?.bind s.nameAt?

/-- The name of the tensor in an input slot that may be left empty. -/
def optionalIn? (decl : Source.OperatorDecl) (slot : Nat) : Option (Option String) :=
  if Graph.hasInput decl slot then (s.nameIn? decl.inputs slot).map some else some none

/-- The name of the only output of an operator. -/
def soleOutput? (decl : Source.OperatorDecl) : Option String :=
  match decl.outputs with
  | [index] => s.nameAt? index
  | _ => none

/-- The call that a declared operator stands for, if its operands are there. -/
def call? (decl : Source.OperatorDecl) : Option Call :=
  match s.model.opcode decl with
  | .conv2d => do
      return .conv (← s.nameIn? decl.inputs 0) (← s.nameIn? decl.inputs 1)
        (← s.optionalIn? decl 2) (← s.soleOutput? decl)
  | .reshape => do
      return .reshape (← s.nameIn? decl.inputs 0) (← s.optionalIn? decl 1) (← s.soleOutput? decl)
  | .other _ => none

/-- The calls of a list of operators. -/
def callsOf (decls : List Source.OperatorDecl) : List Call := decls.filterMap s.call?

/-- The request of an explicit layout. -/
def explicitRequest? (entry : String × ExplicitLayout) : Option Request := do
  let index ← s.subgraph.tensorIndex? entry.1
  let name ← s.nameAt? (.ofNat index)
  match entry.2.toLayout entry.1 with
  | .ok l => some (name, some l)
  | .error _ => none

/-- The requests of explicit layouts, in order. -/
def explicitRequests (entries : List (String × ExplicitLayout)) : List Request :=
  entries.filterMap s.explicitRequest?

/-- The names of tensors at the boundary of a subgraph. -/
def boundary (indices : List UInt64) : List String :=
  indices.filterMap fun index => s.nameAt? index.toInt64

/-- The requests for the boundary of a subgraph. -/
def boundaryRequests (indices : List UInt64) : List Request :=
  (s.boundary indices).map (·, none)

/-- All requests of a conversion, in order. -/
def requests (layouts : SortedMap ExplicitLayout) : List Request :=
  s.explicitRequests layouts.entries ++
    (s.callsOf s.subgraph.operators).flatMap Call.requests ++
    s.boundaryRequests s.subgraph.inputs ++ s.boundaryRequests s.subgraph.outputs

/-- All tensors that a shape is read from. -/
def shapes : List String := (s.callsOf s.subgraph.operators).flatMap Call.shapes

variable {s}

theorem nameAt?_of_tensor {index : Int64} {d : Source.TensorDecl}
    (h : s.subgraph.tensor index = .ok d) : s.nameAt? index = some d.name := by
  rw [nameAt?, h]

theorem soleOutput?_of_length {decl : Source.OperatorDecl} (h : decl.outputs.length = 1) :
    s.soleOutput? decl = s.nameIn? decl.outputs 0 := by
  obtain ⟨index, hindex⟩ := List.length_eq_one_iff.mp h
  rw [soleOutput?, nameIn?, hindex]
  rfl

theorem nameIn?_of_tensor {indices : List Int64} {slot : Nat} {index : Int64}
    {d : Source.TensorDecl} (hslot : indices[slot]? = some index)
    (h : s.subgraph.tensor index = .ok d) : s.nameIn? indices slot = some d.name := by
  rw [nameIn?, hslot, Option.bind_some, nameAt?_of_tensor h]

end Scope

end Relayout
