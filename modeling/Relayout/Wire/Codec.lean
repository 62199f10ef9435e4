/-
# Binary codecs

A codec writes values of one type as bytes and reads them off the front of a
byte string, leaving the rest.  Numbers have a fixed width, least significant
byte first; what varies in length is preceded by its length.  Codecs of
records, lists and alternatives are built from those of their parts, so that a
law of the parts carries over to the whole.
-/
import Relayout.Bytes

namespace Relayout.Wire

/-- A way to write values and to read them back. -/
structure Codec (α : Type) where
  encode : α → List UInt8
  decode : List UInt8 → Option (α × List UInt8)

/-- The first `count` bytes and the rest, if there are so many. -/
def splitBytes : Nat → List UInt8 → Option (List UInt8 × List UInt8)
  | 0, bytes => some ([], bytes)
  | _ + 1, [] => none
  | count + 1, b :: bytes =>
      (splitBytes count bytes).map fun (taken, rest) => (b :: taken, rest)

namespace Codec

variable {α β : Type}

/-! ## Combinators -/

/-- A codec of one type used for another. -/
def map (c : Codec α) (there : α → β) (back : β → α) : Codec β where
  encode b := c.encode (back b)
  decode bytes := (c.decode bytes).map fun (a, rest) => (there a, rest)

/-- A codec used for the values of another type that it can express. -/
def filterMap (c : Codec α) (there : α → Option β) (back : β → α) : Codec β where
  encode b := c.encode (back b)
  decode bytes := (c.decode bytes).bind fun (a, rest) => (there a).map fun b => (b, rest)

/-- One value after another. -/
def pair (a : Codec α) (b : Codec β) : Codec (α × β) where
  encode p := a.encode p.1 ++ b.encode p.2
  decode bytes := (a.decode bytes).bind fun (x, rest) =>
    (b.decode rest).map fun (y, rest) => ((x, y), rest)

/-- A value whose type depends on what was written before it. -/
def tagged {γ : α → Type} (tag : Codec α) (payload : (a : α) → Codec (γ a)) :
    Codec ((a : α) × γ a) where
  encode p := tag.encode p.1 ++ (payload p.1).encode p.2
  decode bytes := (tag.decode bytes).bind fun (a, rest) =>
    ((payload a).decode rest).map fun (x, rest) => (⟨a, x⟩, rest)

/-! ## Numbers -/

/-- A natural number of `size` bytes. -/
def natural (size : Nat) : Codec Nat where
  encode n := Bytes.ofNat size n
  decode bytes := (splitBytes size bytes).map fun (taken, rest) => (Bytes.toNat taken, rest)

/-- A bit vector of `size` whole bytes. -/
def bits (size width : Nat) : Codec (BitVec width) :=
  (natural size).map (BitVec.ofNat width) BitVec.toNat

def int64 : Codec Int64 := (bits 8 64).map Int64.ofBitVec Int64.toBitVec

/-- One of two bytes. -/
def truth : Codec Bool :=
  (natural 1).filterMap
    (fun n => if n = 0 then some false else if n = 1 then some true else none)
    fun b => if b then 1 else 0

/-- One of the listed values, by its position. -/
def oneOf [DecidableEq α] (all : List α) : Codec α :=
  (natural 4).filterMap (fun n => all[n]?) fun a => all.idxOf a

/-! ## Collections -/

def encodeItems (c : Codec α) : List α → List UInt8
  | [] => []
  | a :: as => c.encode a ++ encodeItems c as

def decodeItems (c : Codec α) : Nat → List UInt8 → Option (List α × List UInt8)
  | 0, bytes => some ([], bytes)
  | count + 1, bytes =>
      (c.decode bytes).bind fun (a, rest) =>
        (decodeItems c count rest).map fun (as, rest) => (a :: as, rest)

/-- A list after its length. -/
def list (c : Codec α) : Codec (List α) where
  encode as := (natural 8).encode as.length ++ encodeItems c as
  decode bytes := ((natural 8).decode bytes).bind fun (count, rest) => decodeItems c count rest

/-- A value that may be missing, after the truth that it is there. -/
def option (c : Codec α) : Codec (Option α) where
  encode
    | none => truth.encode false
    | some a => truth.encode true ++ c.encode a
  decode bytes := (truth.decode bytes).bind fun (given, rest) =>
    if given then (c.decode rest).map fun (a, rest) => (some a, rest) else some (none, rest)

/-- The bytes of a text. -/
def textBytes (s : String) : List UInt8 := s.toUTF8.toList

/-- The text of bytes, if they are one. -/
def bytesText? (bytes : List UInt8) : Option String :=
  String.fromUTF8? (ByteArray.mk bytes.toArray)

/-- A text after the length of its encoding. -/
def text : Codec String where
  encode s := (natural 8).encode (textBytes s).length ++ textBytes s
  decode bytes := ((natural 8).decode bytes).bind fun (count, rest) =>
    (splitBytes count rest).bind fun (taken, rest) =>
      (bytesText? taken).map fun s => (s, rest)

end Codec

end Relayout.Wire
