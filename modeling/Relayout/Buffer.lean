/-
# Typed buffers

The constant value of a tensor is a flat row-major buffer: an element type and
one bit pattern per element, as wide as the type.  Integers are read in two's
complement, floats through their format, truth values as one bit, so a cast
is a reading followed by a writing.
-/
import Relayout.Bytes
import Relayout.Layout.Permute
import Relayout.Number.Rounding

namespace Relayout

/- A power is the core library's, whatever other instances are in scope. -/
attribute [local instance (high)] instPowNat

namespace ElementType

/-- The integer that an element stands for; floats stand for none. -/
def intReading? (t : ElementType) : Option (BitVec t.bitWidth → Int) :=
  match t.reading with
  | .float _ => none
  | .signed => some BitVec.toInt
  | .unsigned | .truth => some fun b => (b.toNat : Int)

/-- The element that an integer is written as: reduced modulo the width,
rounded to a float, or compared with zero.  A half-precision float is reached
through a double. -/
def ofInt (t : ElementType) (i : Int) : BitVec t.bitWidth :=
  match t.reading with
  | .float f =>
      BitVec.ofNat _ <|
        if f = .half then Format.double.convert f (Format.double.ofInt i) else f.ofInt i
  | .signed | .unsigned => BitVec.ofInt _ i
  | .truth => if i = 0 then 0 else 1

/-- The double that an element stands for. -/
def toDouble (t : ElementType) (b : BitVec t.bitWidth) : Nat :=
  match t.reading with
  | .float f => f.convert .double b.toNat
  | .signed => Format.double.ofInt b.toInt
  | .unsigned | .truth => Format.double.ofInt b.toNat

/-- The element that a double is written as: rounded to a narrower float,
truncated into the range of an integer, or compared with zero. -/
def ofDouble (t : ElementType) (bits : Nat) : BitVec t.bitWidth :=
  match t.reading with
  | .float f => BitVec.ofNat _ (Format.double.convert f bits)
  | .signed =>
      let half : Int := 2 ^ (t.bitWidth - 1)
      BitVec.ofInt _ ((Format.double.decode bits).truncate (-half) (half - 1))
  | .unsigned =>
      BitVec.ofInt _ ((Format.double.decode bits).truncate 0 (2 ^ t.bitWidth - 1))
  | .truth => if Format.double.magnitude bits = 0 then 0 else 1

/-- The element written by its bytes; any non-zero byte is a truth. -/
def ofBytes (t : ElementType) (bytes : List UInt8) : BitVec t.bitWidth :=
  match t.reading with
  | .truth => if Bytes.toNat bytes = 0 then 0 else 1
  | _ => BitVec.ofNat _ (Bytes.toNat bytes)

end ElementType

/-- A flat row-major buffer of elements of one type. -/
structure Buffer where
  elementType : ElementType
  elements : List (BitVec elementType.bitWidth)
deriving DecidableEq, Repr

namespace Buffer

/-- Number of elements. -/
def length (b : Buffer) : Nat := b.elements.length

/-! ## Building -/

/-- Little-endian bytes read as elements; `none` unless they are whole
elements. -/
def ofBytes? (t : ElementType) (bytes : List UInt8) : Option Buffer :=
  if bytes.length % t.byteSize = 0 then
    some ⟨t, (Bytes.pieces t.byteSize (bytes.length / t.byteSize) bytes).map t.ofBytes⟩
  else none

/-- Integers written as elements. -/
def ofInts (t : ElementType) (is : List Int) : Buffer := ⟨t, is.map t.ofInt⟩

/-- Doubles, given by their bits, written as elements. -/
def ofDoubles (t : ElementType) (ds : List Nat) : Buffer := ⟨t, ds.map t.ofDouble⟩

/-- `count` copies of one double. -/
def full (t : ElementType) (value count : Nat) : Buffer :=
  ofDoubles t (List.replicate count value)

/-! ## Reading -/

/-- The integers of a buffer; a buffer of floats has none. -/
def toInts? (b : Buffer) : Option (List Int) :=
  b.elementType.intReading?.map fun read => b.elements.map read

/-- The doubles of a buffer. -/
def toDoubles (b : Buffer) : List Nat := b.elements.map b.elementType.toDouble

/-! ## Moving -/

/-- The same values at another element type. -/
def cast (b : Buffer) (t : ElementType) : Buffer :=
  if b.elementType = t then b
  else
    match b.toInts? with
    | some is => ofInts t is
    | none => ofDoubles t b.toDoubles

/-- The buffer, laid out as `shape`, moved to the target order. -/
def permute (b : Buffer) (l : Layout) (shape : List Nat) : Except Violation Buffer := do
  return ⟨b.elementType, ← l.permuteBuffer b.elements shape⟩

/-- The values themselves moved, as those of a shape vector. -/
def reorder (b : Buffer) (l : Layout) : Except Violation Buffer := do
  return ⟨b.elementType, ← l.permute b.elements⟩

end Buffer

end Relayout
