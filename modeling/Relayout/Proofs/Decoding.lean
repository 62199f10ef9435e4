/-
# What bytes stand for

A constant is stored as bytes.  `Buffer.Decodes` says what a buffer has to do with
the bytes it is read from, byte by byte and without reading numbers: every element
has its own bytes, in order, and byte `j` of an element is its digit `j` to the
base 256.  A truth has one byte, of which only counts whether it is zero.
-/
import Relayout.Buffer
import Relayout.Proofs.Wire.Codec

namespace Relayout

namespace Bytes

theorem length_pieces (size count : Nat) (bytes : List UInt8) :
    (pieces size count bytes).length = count := by
  induction count generalizing bytes with
  | zero => rfl
  | succ count ih => rw [pieces, List.length_cons, ih]

theorem getElem?_pieces {size count i : Nat} (h : i < count) (bytes : List UInt8) :
    (pieces size count bytes)[i]? = some ((bytes.drop (i * size)).take size) := by
  induction count generalizing bytes i with
  | zero => exact absurd h (Nat.not_lt_zero i)
  | succ count ih =>
      cases i with
      | zero => rw [pieces, List.getElem?_cons_zero, Nat.zero_mul, List.drop_zero]
      | succ i =>
          rw [pieces, List.getElem?_cons_succ, ih (Nat.lt_of_succ_lt_succ h), List.drop_drop,
            Nat.succ_mul, Nat.add_comm size]

/-- The bytes of a number are its digits. -/
theorem toNat_digit {bytes : List UInt8} {j : Nat} {b : UInt8} (h : bytes[j]? = some b) :
    toNat bytes / 256 ^ j % 256 = b.toNat := by
  induction bytes generalizing j with
  | nil => cases h
  | cons a bytes ih =>
      have ha : a.toNat < 256 := a.toNat_lt
      cases j with
      | zero =>
          cases h
          rw [toNat, Nat.pow_zero, Nat.div_one]
          omega
      | succ j =>
          have hrest : (a.toNat + 256 * toNat bytes) / 256 = toNat bytes := by omega
          rw [toNat, Nat.pow_succ', ← Nat.div_div_eq_div_mul, hrest]
          exact ih h

theorem toNat_eq_zero {bytes : List UInt8} : toNat bytes = 0 ↔ ∀ b ∈ bytes, b = 0 := by
  induction bytes with
  | nil => simp [toNat]
  | cons a bytes ih =>
      rw [List.forall_mem_cons, ← ih, toNat, ← UInt8.toNat_inj]
      change _ ↔ a.toNat = 0 ∧ _
      omega

end Bytes

namespace ElementType

theorem byteSize_pos (t : ElementType) : 0 < t.byteSize := by cases t <;> decide

/-- Any element but a truth has the bits of its bytes. -/
theorem pow_byteSize {t : ElementType} (h : t.reading ≠ .truth) :
    256 ^ t.byteSize = 2 ^ t.bitWidth := by
  cases t <;> first | rfl | exact absurd rfl h

/-- The bytes that an element is written by, the least significant first. -/
def WrittenBy (t : ElementType) (e : BitVec t.bitWidth) (bytes : List UInt8) : Prop :=
  bytes.length = t.byteSize ∧
    if t.reading = .truth then e = 0 ↔ ∀ b ∈ bytes, b = 0
    else ∀ (j : Nat) (b : UInt8), bytes[j]? = some b → e.toNat / 256 ^ j % 256 = b.toNat

/-- An element other than a truth has the number of its bytes. -/
theorem toNat_ofBytes {t : ElementType} (ht : t.reading ≠ .truth) {bytes : List UInt8}
    (h : bytes.length = t.byteSize) : (t.ofBytes bytes).toNat = Bytes.toNat bytes := by
  have hofBytes : t.ofBytes bytes = BitVec.ofNat _ (Bytes.toNat bytes) := by
    unfold ofBytes
    split
    · exact absurd ‹_› ht
    · rfl
  have hlt : Bytes.toNat bytes < 2 ^ t.bitWidth := by
    rw [← pow_byteSize ht, ← h]
    exact Bytes.toNat_lt bytes
  rw [hofBytes, BitVec.toNat_ofNat, Nat.mod_eq_of_lt hlt]

theorem writtenBy_ofBytes (t : ElementType) {bytes : List UInt8}
    (h : bytes.length = t.byteSize) : t.WrittenBy (t.ofBytes bytes) bytes := by
  refine ⟨h, ?_⟩
  by_cases ht : t.reading = .truth
  · rw [if_pos ht, ofBytes, ht, ← Bytes.toNat_eq_zero]
    dsimp only
    obtain rfl : t = .bool := by cases t <;> first | rfl | cases ht
    split
    · exact iff_of_true rfl ‹_›
    · exact iff_of_false (by decide) ‹_›
  · rw [if_neg ht, toNat_ofBytes ht h]
    exact fun j b hb => Bytes.toNat_digit hb

end ElementType

namespace Buffer

/-- The elements of a buffer are written by bytes, one after another. -/
structure Decodes (b : Buffer) (bytes : List UInt8) : Prop where
  length : bytes.length = b.elementType.byteSize * b.length
  element : ∀ (i : Nat) (e : BitVec b.elementType.bitWidth), b.elements[i]? = some e →
    b.elementType.WrittenBy e
      ((bytes.drop (i * b.elementType.byteSize)).take b.elementType.byteSize)

variable {type : ElementType} {bytes : List UInt8} {b : Buffer}

/-- Bytes that are whole elements are read. -/
theorem ofBytes?_eq_some : ofBytes? type bytes = some b →
    b.elementType = type ∧ b.Decodes bytes := by
  unfold ofBytes?
  split
  · rename_i hmod
    rintro ⟨⟩
    have hlength : bytes.length = type.byteSize * (bytes.length / type.byteSize) :=
      (Nat.mul_div_cancel' (Nat.dvd_of_mod_eq_zero hmod)).symm
    refine ⟨rfl, ?_, fun i e he => ?_⟩
    · rw [length, List.length_map, Bytes.length_pieces]
      exact hlength
    · rw [List.getElem?_map] at he
      obtain ⟨piece, hpiece, rfl⟩ := Option.map_eq_some_iff.mp he
      have hi : i < bytes.length / type.byteSize := by
        have := (List.getElem?_eq_some_iff.mp hpiece).1
        rwa [Bytes.length_pieces] at this
      rw [Bytes.getElem?_pieces hi] at hpiece
      obtain rfl := Option.some.inj hpiece
      refine type.writtenBy_ofBytes ?_
      -- the piece is whole: another element fits behind it
      have hnext : (i + 1) * type.byteSize ≤ bytes.length := by
        rw [hlength, Nat.mul_comm type.byteSize]
        exact Nat.mul_le_mul_right _ hi
      rw [Nat.succ_mul] at hnext
      rw [List.length_take, List.length_drop]
      omega
  · rintro ⟨⟩

/-- There is a buffer of a given length exactly behind as many bytes as its
elements take. -/
theorem exists_ofBytes?_iff {count : Nat} :
    (∃ b, ofBytes? type bytes = some b ∧ b.length = count) ↔
      bytes.length = type.byteSize * count := by
  constructor
  · rintro ⟨b, hb, rfl⟩
    obtain ⟨rfl, hdecodes⟩ := ofBytes?_eq_some hb
    exact hdecodes.length
  · intro h
    have hmod : bytes.length % type.byteSize = 0 := by rw [h, Nat.mul_mod_right]
    refine ⟨_, if_pos hmod, ?_⟩
    rw [length, List.length_map, Bytes.length_pieces, h,
      Nat.mul_div_cancel_left _ type.byteSize_pos]

end Buffer

end Relayout
