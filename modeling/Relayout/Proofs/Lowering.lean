/-
# How calls are lowered

The nodes that a call becomes, by names alone.  A convolution is one node.  A
reshape reads and writes in source order: an operand with a layout is read in
its other form, made by a transpose in front of the first reshape that reads it,
and written in its other form, with a transpose behind.
-/
import Relayout.Proofs.Calls

namespace Relayout

/-- A transpose between two tensors. -/
def turnNode (name : String) (perm : List Nat) (source target : String) : Target.Node where
  name := name
  opType := "Transpose"
  inputs := [source]
  outputs := [target]
  attributes := .ofEntries (Kind.transpose perm).attributes

/-- What a reshape reads in place of a tensor. -/
def readName (tag : String → Option Layout) (x : String) : String :=
  if (tag x).isSome then synthesizedName "Transposed" x else x

/-- What a reshape writes in place of a tensor. -/
def writtenName (tag : String → Option Layout) (y : String) : String :=
  if (tag y).isSome then synthesizedName "ToTranspose" y else y

/-- The transpose in front of a reshape, unless an earlier one is shared. -/
def turnBefore (tag : String → Option Layout) (seen : List String) (x : String) :
    List Target.Node :=
  match tag x with
  | some l =>
      if x ∈ seen then []
      else [turnNode (synthesizedName "Transposed" x) l.inverse.perm x
        (synthesizedName "Transposed" x)]
  | none => []

/-- The transpose behind a reshape. -/
def turnAfter (tag : String → Option Layout) (y : String) : List Target.Node :=
  match tag y with
  | some l =>
      [turnNode (synthesizedName "Transpose" y) l.perm (synthesizedName "ToTranspose" y) y]
  | none => []

namespace Call

/-- The operand that a call may turn. -/
def turned : Call → List String
  | .conv .. => []
  | .reshape x _ _ => [x]

/-- The nodes of a call, given the node that it would be by itself and the
operands that calls before it may have turned. -/
def block (tag : String → Option Layout) (seen : List String) (plain : Target.Node) :
    Call → List Target.Node
  | .conv .. => [plain]
  | .reshape x _ y =>
      turnBefore tag seen x ++
        [{ plain with
          inputs := plain.inputs.set 0 (readName tag x)
          outputs := plain.outputs.set 0 (writtenName tag y) }] ++
        turnAfter tag y

/-- The operands that the first calls of a list may have turned. -/
def turnedBefore (calls : List Call) (n : Nat) : List String := (calls.take n).flatMap turned

theorem mem_turnedBefore {calls : List Call} {n : Nat} {x : String} :
    x ∈ turnedBefore calls n ↔ ∃ i shape y, i < n ∧ calls[i]? = some (.reshape x shape y) := by
  constructor
  · intro hmem
    obtain ⟨c, hc, hx⟩ := List.mem_flatMap.mp hmem
    obtain ⟨i, hi⟩ := List.getElem?_of_mem hc
    have hlt : i < n := by
      have := (List.getElem?_eq_some_iff.mp hi).1
      rw [List.length_take] at this
      omega
    rw [List.getElem?_take, if_pos hlt] at hi
    cases c with
    | conv a w b y => cases hx
    | reshape a shape y =>
        obtain rfl := List.mem_singleton.mp hx
        exact ⟨i, shape, y, hlt, hi⟩
  · rintro ⟨i, shape, y, hlt, hi⟩
    refine List.mem_flatMap.mpr ⟨.reshape x shape y, List.mem_of_getElem? (i := i) ?_,
      List.mem_singleton_self x⟩
    rw [List.getElem?_take, if_pos hlt, hi]

end Call

end Relayout
