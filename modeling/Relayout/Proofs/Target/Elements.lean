/-
# Constants in binary

A constant is decoded from the bytes of its source buffer and written behind its kind
and its length.  Decoding cuts the bytes into elements and encoding joins them again, so
one element is all there is to look at: it is written by the bytes that it was read
from, and only of a truth that is not zero these may have been others.
-/
import Relayout.Proofs.Casting
import Relayout.Proofs.Decoding
import Relayout.Proofs.Target.Binary

namespace Relayout

open Target Wire Codec

namespace ElementType

/-- The number that stands for a type in front of a constant. -/
def dataTag : ElementType → Nat
  | .float32 => 0
  | .float16 => 1
  | .float64 => 2
  | .uint8 => 3
  | .int8 => 4
  | .int16 => 5
  | .int32 => 6
  | .int64 => 7
  | .bool => 8

/-- What is left of bytes in a constant: all of them, but of a truth only whether it is
zero. -/
def stored (t : ElementType) (bytes : List UInt8) : List UInt8 :=
  if t = .bool then bytes.map fun b => if b = 0 then 0 else 1 else bytes

variable {t : ElementType} {bytes : List UInt8}

@[simp] theorem stored_nil (t : ElementType) : t.stored [] = [] := ite_self _

theorem stored_append (t : ElementType) (front back : List UInt8) :
    t.stored (front ++ back) = t.stored front ++ t.stored back := by
  unfold stored
  split
  · exact List.map_append
  · rfl

/-- An element is written by the bytes that it was read from. -/
theorem encode_ofBytes (h : bytes.length = t.byteSize) :
    (elementCodec t).encode (t.ofBytes bytes) = t.stored bytes := by
  by_cases ht : t = .bool
  · subst ht
    obtain ⟨b, rfl⟩ := List.length_eq_one_iff.mp h
    by_cases hb : b = 0
    · subst hb
      rfl
    · have hnum : Bytes.toNat [b] ≠ 0 := fun h0 =>
        hb (Bytes.toNat_eq_zero.mp h0 b List.mem_cons_self)
      simp only [ofBytes, reading, stored, if_pos, if_neg hnum, List.map_cons, if_neg hb]
      rfl
  · have hreading : t.reading ≠ .truth := by cases t <;> first | decide | exact absurd rfl ht
    have hcodec : elementCodec t = .bits t.byteSize t.bitWidth := by
      cases t <;> first | rfl | exact absurd rfl ht
    rw [hcodec, stored, if_neg ht]
    change Bytes.ofNat t.byteSize (t.ofBytes bytes).toNat = bytes
    rw [toNat_ofBytes hreading h, ← h, Bytes.ofNat_toNat]

theorem length_encode (t : ElementType) (e : BitVec t.bitWidth) :
    ((elementCodec t).encode e).length = t.byteSize := by
  cases t <;> exact Bytes.length_ofNat _ _

/-- Every element is read from the bytes that it is written by. -/
theorem ofBytes_encode (t : ElementType) (e : BitVec t.bitWidth) :
    t.ofBytes ((elementCodec t).encode e) = e := by
  cases t
  case bool =>
    revert e
    decide
  all_goals
    change BitVec.ofNat _ (Bytes.toNat (Bytes.ofNat _ e.toNat)) = e
    rw [Bytes.toNat_ofNat e.isLt, BitVec.ofNat_toNat]
    exact BitVec.setWidth_eq e

/-- An integer has the residue of the number of its bytes. -/
theorem IsInteger.ofBytes_eq (ht : t.IsInteger) (bytes : List UInt8) :
    t.ofBytes bytes = t.ofInt (Bytes.toNat bytes) := by
  rw [ht.ofInt_eq, BitVec.ofInt_natCast]
  unfold ofBytes
  obtain h | h := ht <;> rw [h]

/-- The elements that bytes are cut into are written by these bytes. -/
theorem encodeItems_pieces {count : Nat} (h : bytes.length = t.byteSize * count) :
    encodeItems (elementCodec t) ((Bytes.pieces t.byteSize count bytes).map t.ofBytes) =
      t.stored bytes := by
  induction count generalizing bytes with
  | zero =>
      obtain rfl : bytes = [] := List.eq_nil_of_length_eq_zero h
      exact t.stored_nil.symm
  | succ count ih =>
      rw [Nat.mul_succ] at h
      have hfirst : (bytes.take t.byteSize).length = t.byteSize := by
        rw [List.length_take]
        omega
      have hrest : (bytes.drop t.byteSize).length = t.byteSize * count := by
        rw [List.length_drop]
        omega
      rw [Bytes.pieces, List.map_cons, encodeItems, encode_ofBytes hfirst, ih hrest,
        ← stored_append, List.take_append_drop]

/-- Bytes that elements are written by are cut into these elements. -/
theorem pieces_encodeItems (t : ElementType) (es : List (BitVec t.bitWidth)) :
    (Bytes.pieces t.byteSize es.length (encodeItems (elementCodec t) es)).map t.ofBytes = es := by
  induction es with
  | nil => rfl
  | cons e es ih =>
      have hlength := t.length_encode e
      rw [encodeItems, List.length_cons, Bytes.pieces, List.take_left' hlength,
        List.drop_left' hlength, List.map_cons, ofBytes_encode, ih]

theorem length_encodeItems (t : ElementType) (es : List (BitVec t.bitWidth)) :
    (encodeItems (elementCodec t) es).length = t.byteSize * es.length := by
  induction es with
  | nil => rfl
  | cons e es ih =>
      rw [encodeItems, List.length_append, length_encode, ih, List.length_cons, Nat.mul_succ,
        Nat.add_comm]

end ElementType

namespace Buffer

/-- A buffer keeps the bytes of a constant of a type. -/
structure Keeps (b : Buffer) (t : ElementType) (bytes : List UInt8) : Prop where
  elementType : b.elementType = t
  length : b.length = bytes.length / t.byteSize
  /-- Every element has its own bytes, in order. -/
  decodes : b.Decodes bytes
  /-- The bytes of an integer are read in the range of its type. -/
  integers : t.IsInteger → ∃ is, b.toInts? = some is ∧
    ∀ (k : Nat) (i : Int), is[k]? = some i →
      t.Wraps (Bytes.toNat ((bytes.drop (k * t.byteSize)).take t.byteSize)) i
  encode : bufferCodec.encode b =
    Bytes.ofNat 4 t.dataTag ++ Bytes.ofNat 8 b.length ++ t.stored bytes

variable {t : ElementType} {bytes : List UInt8} {b : Buffer}

theorem encode_eq (b : Buffer) :
    bufferCodec.encode b =
      Bytes.ofNat 4 b.elementType.dataTag ++ Bytes.ofNat 8 b.length ++
        encodeItems (elementCodec b.elementType) b.elements := by
  have htag : dataKindCodec.encode b.elementType = Bytes.ofNat 4 b.elementType.dataTag := by
    cases b.elementType <;> rfl
  rw [← htag, List.append_assoc]
  rfl

theorem ofBytes?_eq_none : ofBytes? t bytes = none ↔ ¬t.byteSize ∣ bytes.length := by
  rw [Nat.dvd_iff_mod_eq_zero, ofBytes?]
  split
  · exact iff_of_false nofun (absurd ‹_›)
  · exact iff_of_true rfl ‹_›

/-- The bytes of integers are integers. -/
theorem ofBytes?_of_isInteger (ht : t.IsInteger) (h : ofBytes? t bytes = some b) :
    b = ofInts t ((Bytes.pieces t.byteSize (bytes.length / t.byteSize) bytes).map
      fun piece => (Bytes.toNat piece : Int)) := by
  unfold ofBytes? at h
  split at h
  · obtain rfl := Option.some.inj h
    rw [ofInts, List.map_map]
    exact congrArg _ (List.map_congr_left fun piece _ => ht.ofBytes_eq piece)
  · cases h

/-- What is decoded is written by the same bytes, behind its kind and its length. -/
theorem encode_of_ofBytes? (h : ofBytes? t bytes = some b) :
    bufferCodec.encode b =
      Bytes.ofNat 4 t.dataTag ++ Bytes.ofNat 8 b.length ++ t.stored bytes := by
  unfold ofBytes? at h
  split at h
  · rename_i hmod
    have hlength : bytes.length = t.byteSize * (bytes.length / t.byteSize) :=
      (Nat.mul_div_cancel' (Nat.dvd_of_mod_eq_zero hmod)).symm
    obtain rfl := Option.some.inj h
    rw [encode_eq]
    exact congrArg _ (ElementType.encodeItems_pieces hlength)
  · cases h

theorem keeps_of_ofBytes? (h : ofBytes? t bytes = some b) : b.Keeps t bytes := by
  obtain ⟨htype, hdecodes⟩ := ofBytes?_eq_some h
  have hcount : b.length = bytes.length / t.byteSize := by
    rw [hdecodes.length, htype, Nat.mul_div_cancel_left _ t.byteSize_pos]
  refine ⟨htype, hcount, hdecodes, ?_, encode_of_ofBytes? h⟩
  intro ht
  obtain ⟨read, hread⟩ := ElementType.intReading?_isSome ht.isFloat
  rw [ofBytes?_of_isInteger ht h, toInts?_ofInts_of_intReading? hread, List.map_map]
  refine ⟨_, rfl, ?_⟩
  intro k i hi
  rw [List.getElem?_map] at hi
  obtain ⟨piece, hpiece, rfl⟩ := Option.map_eq_some_iff.mp hi
  have hk : k < bytes.length / t.byteSize := by
    have := (List.getElem?_eq_some_iff.mp hpiece).1
    rwa [Bytes.length_pieces] at this
  rw [Bytes.getElem?_pieces hk] at hpiece
  obtain rfl := Option.some.inj hpiece
  exact ht.wraps hread _

/-- Every buffer is decoded from the bytes of its elements. -/
theorem ofBytes?_encodeItems (b : Buffer) :
    ofBytes? b.elementType (encodeItems (elementCodec b.elementType) b.elements) = some b := by
  have hlength := b.elementType.length_encodeItems b.elements
  have hmod : (encodeItems (elementCodec b.elementType) b.elements).length %
      b.elementType.byteSize = 0 := by
    rw [hlength, Nat.mul_mod_right]
  rw [ofBytes?, if_pos hmod, hlength, Nat.mul_div_cancel_left _ b.elementType.byteSize_pos,
    b.elementType.pieces_encodeItems]

/-- A constant survives from its source buffer to the target: bytes that are whole
elements, and no others, are decoded, to a buffer that is written by the same bytes
behind its kind and its length.  So bytes that tell different elements give different
buffers, and no buffer is missed. -/
theorem ofBytes?_keeps (t : ElementType) :
    (∀ bytes, (ofBytes? t bytes = none ↔ ¬t.byteSize ∣ bytes.length) ∧
      ∀ b, ofBytes? t bytes = some b → b.Keeps t bytes) ∧
    (∀ bytes bytes' b, ofBytes? t bytes = some b → ofBytes? t bytes' = some b →
      t.stored bytes = t.stored bytes') ∧
    ∀ b : Buffer, b.elementType = t → ∃ bytes, ofBytes? t bytes = some b := by
  refine ⟨fun bytes => ⟨ofBytes?_eq_none, fun b => keeps_of_ofBytes?⟩, ?_, ?_⟩
  · intro bytes bytes' b h h'
    have hencode := (keeps_of_ofBytes? h).encode.symm.trans (keeps_of_ofBytes? h').encode
    exact List.append_cancel_left hencode
  · rintro b rfl
    exact ⟨_, b.ofBytes?_encodeItems⟩

/-- Minus two and one, as the bytes that stand for them before and after. -/
example :
    (ofBytes? .int16 [254, 255, 1, 0]).map bufferCodec.encode =
      some [5, 0, 0, 0, 2, 0, 0, 0, 0, 0, 0, 0, 254, 255, 1, 0] := by
  decide

end Buffer

end Relayout
