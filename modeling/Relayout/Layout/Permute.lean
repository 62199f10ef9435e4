/-
# Permuting shapes and buffers

A layout moves a shape-like list by picking, for every target axis, the entry
of the source axis with the same label.  A dense row-major buffer is moved by
walking the target shape in row-major order while keeping one running offset
into the source: stepping an axis adds its stride, and wrapping an axis takes
back what the whole axis had added.  `Relayout.Layout.permuteBuffer` is thus
the transpose of the buffer, without any multi-index being decoded.
-/
import Relayout.Fault

namespace Relayout

/-- Number of elements of a dense buffer of the given shape. -/
def elementCount (shape : List Nat) : Nat := shape.foldr (· * ·) 1

/-- The step in a row-major buffer along each axis. -/
def rowMajorStrides : List Nat → List Nat
  | [] => []
  | _ :: dims => elementCount dims :: rowMajorStrides dims

/-- The entry at a position, which must exist. -/
def entryAt {α : Type} (xs : List α) (i : Nat) : Except Violation α :=
  match xs[i]? with
  | some x => .ok x
  | none => .error .indexOutOfBounds

namespace Layout

/-- The layout between labels that the caller vouches for. -/
def ofTrustedLabels (source target : String) : Except Violation Layout :=
  match ofLabels source target with
  | .ok l => .ok l
  | .error reason => .error (.badLabels reason)

/-- A shape-like list moved to the target order. -/
def permute {α : Type} (l : Layout) (xs : List α) : Except Violation (List α) :=
  if xs.length = l.rank then l.perm.mapM (entryAt xs)
  else .error (.shapeRank l xs.length)

end Layout

/-! ## Walking a buffer -/

/-- One axis of a walk: its extent, what a step along it adds to the offset,
and the current position. -/
structure Wheel where
  extent : Nat
  stride : Nat
  position : Nat
deriving DecidableEq, Repr

/-- One step of the walk.  The wheels come last axis first: the first wheel
that does not wrap stops the carry. -/
def advanceWheels : List Wheel → Nat → Except Violation (List Wheel × Nat)
  | [], offset => .ok ([], offset)
  | w :: wheels, offset =>
      let stepped := offset + w.stride
      if w.position + 1 < w.extent then
        .ok (⟨w.extent, w.stride, w.position + 1⟩ :: wheels, stepped)
      else if w.stride * w.extent ≤ stepped then do
        let (wheels, offset) ← advanceWheels wheels (stepped - w.stride * w.extent)
        return (⟨w.extent, w.stride, 0⟩ :: wheels, offset)
      else .error .offsetUnderflow

/-- The next `count` elements of a walk.  What was read so far is held in
reverse. -/
def readWalk {α : Type} (data : Array α) :
    Nat → List Wheel → Nat → List α → Except Violation (List α)
  | 0, _, _, read => .ok read.reverse
  | count + 1, wheels, offset, read =>
      match data[offset]? with
      | none => .error .indexOutOfBounds
      | some x => do
          let (wheels, offset) ← advanceWheels wheels offset
          readWalk data count wheels offset (x :: read)

namespace Layout

/-- A dense row-major buffer of the given shape, moved to the target order. -/
def permuteBuffer {α : Type} (l : Layout) (data : List α) (shape : List Nat) :
    Except Violation (List α) := do
  let extents ← l.permute shape
  if data.length = elementCount shape then
    let strides ← l.permute (rowMajorStrides shape)
    let wheels := (extents.zip strides).map fun (extent, stride) => Wheel.mk extent stride 0
    readWalk data.toArray data.length wheels.reverse 0 []
  else .error (.bufferSize data.length shape)

end Layout

end Relayout
