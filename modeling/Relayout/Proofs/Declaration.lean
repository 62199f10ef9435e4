/-
# What a source declares

The meaning of a declaration, apart from any graph: the extents of a tensor,
the constant behind it, and which tensors an operator refers to.  A source
tensor is meant by its position among the tensors of the subgraph.
-/
import Mathlib.Algebra.Ring.Nat
import Relayout.Buffer
import Relayout.Scope

namespace Relayout

namespace Source

/-- The declared dimensions, as numbers. -/
def TensorDecl.extents (d : TensorDecl) : List Nat := d.shape.map fun n => n.toInt.toNat

@[simp] theorem TensorDecl.length_extents (d : TensorDecl) :
    d.extents.length = d.shape.length := List.length_map _

/-- The tensor that a list of operands refers to in a slot; a negative index
refers to none. -/
def operandAt? (indices : List Int64) (slot : Nat) : Option Nat :=
  indices[slot]?.bind fun index => if 0 ≤ index.toInt then some index.toInt.toNat else none

/-- The lists of a subgraph are no longer than 63 bits can count, as any list in
memory is. -/
structure Subgraph.Storable (g : Subgraph) : Prop where
  tensors : g.tensors.length < 2 ^ 63
  newShapes : ∀ decl ∈ g.operators, ∀ newShape, decl.options = .reshape newShape →
    newShape.length < 2 ^ 63

namespace Subgraph

variable {g : Subgraph} {index : Int64} {d : TensorDecl}

theorem tensor_eq_ok :
    g.tensor index = .ok d ↔ 0 ≤ index.toInt ∧ g.tensors[index.toInt.toNat]? = some d := by
  unfold tensor
  by_cases h : 0 ≤ index.toInt
  · simp only [if_pos h]
    cases hd : g.tensors[index.toInt.toNat]? <;> simp [h]
  · simp [h]

theorem ofNat_toNat_toInt (h : 0 ≤ index.toInt) : Int64.ofNat index.toInt.toNat = index := by
  apply Int64.toInt_inj.mp
  rw [Int64.toInt_ofNat_of_lt]
  · exact Int.toNat_of_nonneg h
  · have := index.toInt_lt
    omega

/-- Dimensions that are not negative are the extents. -/
theorem map_ofNat_extents (h : ∀ n ∈ d.shape, 0 ≤ n.toInt) :
    d.extents.map Int64.ofNat = d.shape := by
  rw [TensorDecl.extents, List.map_map]
  exact (List.map_congr_left fun n hn => ofNat_toNat_toInt (h n hn)).trans (List.map_id _)

/-- A tensor found at an index is found again at the position. -/
theorem tensor_ofNat_toNat (h : g.tensor index = .ok d) :
    g.tensor (.ofNat index.toInt.toNat) = .ok d := by
  rwa [ofNat_toNat_toInt (tensor_eq_ok.mp h).1]

end Subgraph

end Source

namespace Scope

/-- The constant behind a tensor: the elements of its buffer, unless the buffer
is empty. -/
def constant? (s : Scope) (d : Source.TensorDecl) : Option Buffer :=
  match s.model.bufferData d, d.elementType.converted? with
  | .ok bytes, some type => if bytes.isEmpty then none else Buffer.ofBytes? type bytes
  | _, _ => none

/-- A tensor that can be read, with the element type it gets. -/
structure Reads (s : Scope) (d : Source.TensorDecl) (type : ElementType) : Prop where
  /-- No dimension is negative. -/
  nonneg : ∀ n ∈ d.shape, 0 ≤ n.toInt
  converted : d.elementType.converted? = some type
  /-- A buffer with bytes holds a constant. -/
  constant : ∃ bytes, s.model.bufferData d = .ok bytes ∧
    (s.constant? d).isSome = !bytes.isEmpty
  /-- The constant fills the declared shape. -/
  fills : ∀ b, s.constant? d = some b → b.length = elementCount d.extents

theorem constant?_elementType {s : Scope} {d : Source.TensorDecl} {type : ElementType}
    {b : Buffer} (ht : d.elementType.converted? = some type) (h : s.constant? d = some b) :
    b.elementType = type := by
  unfold constant? at h
  rw [ht] at h
  split at h
  · rename_i hbytes hsome
    cases hsome
    split at h
    · cases h
    · unfold Buffer.ofBytes? at h
      split at h
      · cases h
        rfl
      · cases h
  · cases h

end Scope

end Relayout
