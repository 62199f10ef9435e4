/-
# Little-endian bytes

Numbers in buffers and in the binary form are written least significant byte
first, at a fixed width.
-/

namespace Relayout.Bytes

/-- The number written by bytes, least significant first. -/
def toNat : List UInt8 → Nat
  | [] => 0
  | b :: bytes => b.toNat + 256 * toNat bytes

/-- The lowest `count` bytes of a number, least significant first. -/
def ofNat : Nat → Nat → List UInt8
  | 0, _ => []
  | count + 1, n => UInt8.ofNat n :: ofNat count (n / 256)

/-- The first `count` pieces of the given size. -/
def pieces (size : Nat) : Nat → List UInt8 → List (List UInt8)
  | 0, _ => []
  | count + 1, bytes => bytes.take size :: pieces size count (bytes.drop size)

end Relayout.Bytes
