/-
# What a graph computes

A value is the flat row-major list of what its elements stand for, whatever the
element type.  Operators are run in order on a memory of values: a reshape copies
a value, a transpose permutes it over given dimensions, and what the convolutions
do is a parameter, one kernel for each.  A source keeps values by the positions
of its tensors, a converted graph by their names.
-/
import Mathlib.Logic.Function.Basic
import Relayout.Proofs.Casting
import Relayout.Proofs.Graph.Origins
import Relayout.Target.Model

namespace Relayout

/-! ## Values -/

/-- What an element stands for; a float stands for its pattern. -/
inductive Scalar where
  | integer (value : Int)
  | float (type : ElementType) (bits : Nat)
deriving DecidableEq, Repr

def ElementType.scalar (t : ElementType) (b : BitVec t.bitWidth) : Scalar :=
  t.intReading?.elim (.float t b.toNat) fun read => .integer (read b)

abbrev Value := List Scalar

def Buffer.value (b : Buffer) : Value := b.elements.map b.elementType.scalar

@[simp] theorem Buffer.length_value (b : Buffer) : b.value.length = b.length := List.length_map _

theorem Buffer.value_transposed (b : Buffer) (perm dims : List Nat) :
    (b.transposed perm dims).value = Relayout.transposed perm dims b.value :=
  (transposed_map _ _ _ _).symm

theorem ElementType.scalar_eq {t : ElementType} {read : BitVec t.bitWidth → Int}
    (h : t.intReading? = some read) (b : BitVec t.bitWidth) : t.scalar b = .integer (read b) := by
  rw [scalar, h]
  rfl

/-- Integers stand for the same in 64 bits. -/
theorem Buffer.value_cast_int64 {b : Buffer} (h : b.elementType.isFloat = false) :
    (b.cast .int64).value = b.value := by
  obtain ⟨read, hread⟩ := ElementType.intReading?_isSome h
  rw [cast_of_toInts? (toInts?_of_intReading? hread), value, value, ofInts, List.map_map,
    List.map_map]
  refine List.map_congr_left fun e _ => ?_
  rw [ElementType.scalar_eq hread]
  have hrange := ElementType.inRange_int64 (ElementType.inRange_read hread e)
  exact congrArg Scalar.integer (ElementType.read_ofInt (t := .int64) rfl hrange)

/-- What a convolution does with its activations, its weights and its bias. -/
abbrev Kernel := Value → Value → Option Value → Value

/-! ## Running instructions -/

/-- The values that are there, by their places, and how many convolutions have
run. -/
structure Memory (κ : Type) where
  convolved : Nat
  value? : κ → Option Value

/-- What an operator does to the values in its places. -/
inductive Instruction (κ : Type) where
  | convolve (input weights : κ) (bias : Option κ) (output : κ)
  | copy (input output : κ)
  | transpose (perm dims : List Nat) (input output : κ)

variable {κ : Type} [DecidableEq κ]

def Memory.store (m : Memory κ) (place : κ) (v : Value) : Memory κ :=
  { m with value? := Function.update m.value? place (some v) }

@[simp] theorem Memory.convolved_store (m : Memory κ) (place : κ) (v : Value) :
    (m.store place v).convolved = m.convolved := rfl

@[simp] theorem Memory.value?_store_self (m : Memory κ) (place : κ) (v : Value) :
    (m.store place v).value? place = some v := Function.update_self ..

theorem Memory.value?_store_of_ne (m : Memory κ) {place other : κ} (h : other ≠ place) (v : Value) :
    (m.store place v).value? other = m.value? other := Function.update_of_ne h ..

/-- An instruction runs once all that it reads is there. -/
def Instruction.execute? (kernels : Nat → Kernel) (m : Memory κ) :
    Instruction κ → Option (Memory κ)
  | .convolve x w b y => do
      let v := kernels m.convolved (← m.value? x) (← m.value? w) (← b.mapM m.value?)
      return { m.store y v with convolved := m.convolved + 1 }
  | .copy x y => do return m.store y (← m.value? x)
  | .transpose perm dims x y => do return m.store y (transposed perm dims (← m.value? x))

/-! ## Sources -/

namespace Scope

variable (s : Scope)

instance (t : Nat) : Decidable (s.IsInput t) :=
  inferInstanceAs (Decidable (∃ index ∈ s.subgraph.inputs, index.toNat = t))

/-- What a declared operator does. -/
def instruction? (decl : Source.OperatorDecl) : Option (Instruction Nat) :=
  match s.model.opcode decl with
  | .conv2d => do
      return .convolve (← Source.operandAt? decl.inputs 0) (← Source.operandAt? decl.inputs 1)
        (Source.operandAt? decl.inputs 2) (← Source.operandAt? decl.outputs 0)
  | .reshape => do
      return .copy (← Source.operandAt? decl.inputs 0) (← Source.operandAt? decl.outputs 0)
  | .other _ => none

/-- At first the constants are there, and what is given for the inputs. -/
def initial (given : Nat → Value) : Memory Nat where
  convolved := 0
  value? p := s.subgraph.tensors[p]?.bind fun d =>
    ((s.constant? d).map Buffer.value).or (if s.IsInput p then some (given p) else none)

def execute? (kernels : Nat → Kernel) (m : Memory Nat) (decl : Source.OperatorDecl) :
    Option (Memory Nat) :=
  (s.instruction? decl).bind (·.execute? kernels m)

/-- The values of a source whose operators were run in order. -/
def evaluate (kernels : Nat → Kernel) (given : Nat → Value) : Option (Memory Nat) :=
  s.subgraph.operators.foldlM (s.execute? kernels) (s.initial given)

end Scope

/-! ## Converted graphs -/

namespace Target

/-- The axes that an attribute lists. -/
def Attribute.axes? : Attribute → Option (List Nat)
  | .ints values => some (values.map fun n => n.toInt.toNat)
  | _ => none

namespace Graph

variable (g : Graph)

/-- The dimensions of a tensor. -/
def extents? (name : String) : Option (List Nat) :=
  (g.tensor? name).map fun t => t.dims.map fun n => n.toInt.toNat

/-- What a node does. -/
def instruction? (n : Node) : Option (Instruction String) :=
  if n.opType = "Conv" then do
    return .convolve (← n.inputs[0]?) (← n.inputs[1]?) (n.inputs[2]?.filter (· ≠ ""))
      (← n.outputs[0]?)
  else if n.opType = "Reshape" then do return .copy (← n.inputs[0]?) (← n.outputs[0]?)
  else if n.opType = "Transpose" then do
    let x ← n.inputs[0]?
    return .transpose (← (n.attribute? "perm").bind Attribute.axes?) (← g.extents? x) x
      (← n.outputs[0]?)
  else none

/-- At first the initializers are there, and what is given for the inputs. -/
def initial (given : String → Value) : Memory String where
  convolved := 0
  value? name := ((g.initializers.find? fun t => t.name == name).bind fun t =>
    t.data.map Buffer.value).or
      (if name ∈ g.inputs.map TensorNode.name then some (given name) else none)

def execute? (kernels : Nat → Kernel) (m : Memory String) (n : Node) : Option (Memory String) :=
  (g.instruction? n).bind (·.execute? kernels m)

/-- The values of a converted graph whose nodes were run in order. -/
def evaluate (kernels : Nat → Kernel) (given : String → Value) : Option (Memory String) :=
  g.nodes.foldlM (g.execute? kernels) (g.initial given)

end Graph

end Target

end Relayout
