/-
# Element types

The element types of a converted tensor, with their numeric codes, their short
names and the width of one element.
-/
import Relayout.Number.Format

namespace Relayout

/-- Element type of a converted tensor. -/
inductive ElementType where
  | float32
  | uint8
  | int8
  | int16
  | int32
  | int64
  | bool
  | float16
  | float64
deriving DecidableEq, Repr

namespace ElementType

/-- Every element type, by ascending code. -/
def all : List ElementType :=
  [.float32, .uint8, .int8, .int16, .int32, .int64, .bool, .float16, .float64]

/-- The numeric tag of the target format. -/
def code : ElementType → Nat
  | .float32 => 1
  | .uint8 => 2
  | .int8 => 3
  | .int16 => 5
  | .int32 => 6
  | .int64 => 7
  | .bool => 9
  | .float16 => 10
  | .float64 => 11

/-- The element type with a given tag. -/
def ofCode? (code : Int) : Option ElementType :=
  all.find? fun t => (t.code : Int) == code

/-- The short name, which also enters the names of synthesized tensors. -/
def name : ElementType → String
  | .float32 => "float32"
  | .uint8 => "uint8"
  | .int8 => "int8"
  | .int16 => "int16"
  | .int32 => "int32"
  | .int64 => "int64"
  | .bool => "bool"
  | .float16 => "float16"
  | .float64 => "float64"

/-- Bytes that one element takes in a buffer. -/
def byteSize : ElementType → Nat
  | .uint8 | .int8 | .bool => 1
  | .int16 | .float16 => 2
  | .float32 | .int32 => 4
  | .int64 | .float64 => 8

/-- Bits that tell one element from another: a truth value has one, any other
element as many as its bytes hold. -/
def bitWidth : ElementType → Nat
  | .bool => 1
  | .uint8 | .int8 => 8
  | .int16 | .float16 => 16
  | .float32 | .int32 => 32
  | .int64 | .float64 => 64

/-- How the bits of an element are read. -/
inductive Reading where
  | float (format : Format)
  | signed
  | unsigned
  | truth
deriving DecidableEq, Repr

def reading : ElementType → Reading
  | .float16 => .float .half
  | .float32 => .float .single
  | .float64 => .float .double
  | .int8 | .int16 | .int32 | .int64 => .signed
  | .uint8 => .unsigned
  | .bool => .truth

/-- Whether the elements are floats. -/
def isFloat (t : ElementType) : Bool :=
  match t.reading with
  | .float _ => true
  | _ => false

end ElementType

end Relayout
