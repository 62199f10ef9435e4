/-
# Casts between integers

A cast reads integers and writes them at another width.  What is read is in the range
of its type (`inRange_read`), what is written depends on a residue only
(`ofInt_congr`), and a range has one integer of each residue (`eq_of_modEq`).  All that
is said of casts follows from these three, whatever the signs of the two types are.

A truth value stands for zero or one.  It is written by a comparison with zero and not
by reduction, so the laws of writing leave it out or ask for an integer in range.
-/
import Mathlib.Data.Int.ModEq
import Relayout.Proofs.Tensor

namespace Relayout

namespace ElementType

/-- Integers of some width; floats and truth values are none. -/
def IsInteger (t : ElementType) : Prop := t.reading = .signed ∨ t.reading = .unsigned

instance (t : ElementType) : Decidable t.IsInteger := inferInstanceAs (Decidable (_ ∨ _))

/-- The integers that the elements of a type stand for. -/
def InRange (t : ElementType) (i : Int) : Prop :=
  match t.reading with
  | .float _ => False
  | .signed => -2 ^ (t.bitWidth - 1) ≤ i ∧ i < 2 ^ (t.bitWidth - 1)
  | .unsigned | .truth => 0 ≤ i ∧ i < 2 ^ t.bitWidth

/-- What is left of an integer at the width of a type: the one integer in its range that
has the same residue. -/
structure Wraps (t : ElementType) (i j : Int) : Prop where
  inRange : t.InRange j
  residue : j ≡ i [ZMOD 2 ^ t.bitWidth]
  unique : ∀ k, t.InRange k → k ≡ i [ZMOD 2 ^ t.bitWidth] → k = j

variable {t u : ElementType} {read : BitVec t.bitWidth → Int} {i j : Int}

theorem intReading?_isSome (h : t.isFloat = false) : ∃ read, t.intReading? = some read := by
  cases t <;> first | exact ⟨_, rfl⟩ | cases h

theorem IsInteger.isFloat (h : t.IsInteger) : t.isFloat = false := by
  unfold ElementType.isFloat
  obtain h | h := h <;> rw [h]

/-- What is read is in range. -/
theorem inRange_read (h : t.intReading? = some read) (e : BitVec t.bitWidth) :
    t.InRange (read e) := by
  cases t <;> cases h
  all_goals
    have := e.isLt
    have := BitVec.toInt_lt (x := e)
    have := BitVec.le_toInt (x := e)
    simp only [InRange, reading, bitWidth] at *
    omega

/-- An element is written as it was read. -/
theorem ofInt_read (h : t.intReading? = some read) (e : BitVec t.bitWidth) :
    t.ofInt (read e) = e := by
  cases t <;> cases h
  case bool =>
    revert e
    decide
  case uint8 => exact (BitVec.ofInt_natCast _ _).trans (BitVec.ofNat_toNat _ _)
  all_goals exact BitVec.ofInt_toInt

/-- A range has one integer of each residue. -/
theorem eq_of_modEq (hi : t.InRange i) (hj : t.InRange j) (h : i ≡ j [ZMOD 2 ^ t.bitWidth]) :
    i = j := by
  unfold Int.ModEq at h
  cases t <;> simp only [InRange, reading, bitWidth] at hi hj h <;> omega

theorem IsInteger.ofInt_eq (ht : t.IsInteger) (i : Int) : t.ofInt i = BitVec.ofInt _ i := by
  unfold ofInt
  obtain h | h := ht <;> rw [h]

/-- What is written depends on a residue only. -/
theorem IsInteger.ofInt_congr (ht : t.IsInteger) (h : i ≡ j [ZMOD 2 ^ t.bitWidth]) :
    t.ofInt i = t.ofInt j := by
  rw [ht.ofInt_eq, ht.ofInt_eq]
  refine BitVec.eq_of_toNat_eq ?_
  rw [BitVec.toNat_ofInt, BitVec.toNat_ofInt]
  push_cast
  rw [h]

/-- What was written is read with the residue of what was to be written. -/
theorem IsInteger.read_ofInt_modEq (ht : t.IsInteger) (h : t.intReading? = some read) (i : Int) :
    read (t.ofInt i) ≡ i [ZMOD 2 ^ t.bitWidth] := by
  rw [ht.ofInt_eq]
  obtain hs | hu := ht
  · have hread : read = BitVec.toInt := by
      rw [intReading?, hs] at h
      exact (Option.some.inj h).symm
    rw [hread, BitVec.toInt_ofInt]
    exact Int.bmod_emod
  · have hread : read = fun b => (b.toNat : Int) := by
      rw [intReading?, hu] at h
      exact (Option.some.inj h).symm
    have hpos : (0 : Int) < 2 ^ t.bitWidth := Int.pow_pos (by decide)
    rw [hread]
    dsimp only
    rw [BitVec.toNat_ofInt]
    push_cast
    rw [Int.toNat_of_nonneg (Int.emod_nonneg _ hpos.ne')]
    exact Int.mod_modEq _ _

theorem IsInteger.wraps (ht : t.IsInteger) (h : t.intReading? = some read) (i : Int) :
    t.Wraps i (read (t.ofInt i)) where
  inRange := inRange_read h _
  residue := ht.read_ofInt_modEq h i
  unique := fun _ hk hmod =>
    eq_of_modEq hk (inRange_read h _) (hmod.trans (ht.read_ofInt_modEq h i).symm)

/-- An integer that fits is read as it was written. -/
theorem read_ofInt (h : t.intReading? = some read) (hi : t.InRange i) : read (t.ofInt i) = i := by
  by_cases ht : t.IsInteger
  · exact ((ht.wraps h i).unique i hi rfl).symm
  · obtain rfl : t = .bool := by
      cases t <;> simp_all [IsInteger, intReading?, reading]
    cases h
    have hcases : i = 0 ∨ i = 1 := by
      simp only [InRange, reading, bitWidth] at hi
      omega
    obtain rfl | rfl := hcases <;> rfl

/-- 64 bits hold the integers of every type. -/
theorem inRange_int64 (hi : t.InRange i) : int64.InRange i := by
  cases t <;> simp only [InRange, reading, bitWidth] at hi ⊢ <;> omega

/-- Equal residues of a wider type are equal for a narrower one. -/
theorem modEq_of_bitWidth_le (hle : u.bitWidth ≤ t.bitWidth) (h : i ≡ j [ZMOD 2 ^ t.bitWidth]) :
    i ≡ j [ZMOD 2 ^ u.bitWidth] :=
  h.of_dvd (pow_dvd_pow 2 hle)

end ElementType

namespace Buffer

variable {b : Buffer} {t u : ElementType} {is : List Int}

theorem toInts?_of_intReading? {read : BitVec b.elementType.bitWidth → Int}
    (h : b.elementType.intReading? = some read) : b.toInts? = some (b.elements.map read) := by
  rw [toInts?, h]
  rfl

theorem toInts?_ofInts_of_intReading? {read : BitVec t.bitWidth → Int}
    (h : t.intReading? = some read) (is : List Int) :
    (ofInts t is).toInts? = some (is.map fun i => read (t.ofInt i)) := by
  rw [toInts?_of_intReading? (b := ofInts t is) h]
  exact congrArg some (List.map_map ..)

/-- A buffer of integers has them in its range. -/
theorem exists_toInts? (h : b.elementType.isFloat = false) :
    ∃ is, b.toInts? = some is ∧ ∀ i ∈ is, b.elementType.InRange i := by
  obtain ⟨read, hread⟩ := ElementType.intReading?_isSome h
  refine ⟨_, toInts?_of_intReading? hread, ?_⟩
  intro i hi
  obtain ⟨e, -, rfl⟩ := List.mem_map.mp hi
  exact ElementType.inRange_read hread e

/-- Writing the integers of a buffer at its own type gives the buffer back. -/
theorem ofInts_of_toInts? (h : b.toInts? = some is) : ofInts b.elementType is = b := by
  obtain ⟨read, hread, rfl⟩ := Option.map_eq_some_iff.mp h
  have helements : (b.elements.map read).map b.elementType.ofInt = b.elements := by
    rw [List.map_map]
    exact List.map_id'' (fun e => ElementType.ofInt_read hread e) _
  rw [ofInts, helements]

/-- A cast of integers writes them anew, also where it does nothing. -/
theorem cast_of_toInts? (h : b.toInts? = some is) (t : ElementType) : b.cast t = ofInts t is := by
  by_cases ht : b.elementType = t
  · subst ht
    rw [cast_of_elementType rfl, ofInts_of_toInts? h]
  · rw [cast, if_neg ht, h]

/-- Integers that fit keep their values. -/
theorem toInts?_ofInts_of_inRange (ht : t.isFloat = false) (h : ∀ i ∈ is, t.InRange i) :
    (ofInts t is).toInts? = some is := by
  obtain ⟨read, hread⟩ := ElementType.intReading?_isSome ht
  rw [toInts?_ofInts_of_intReading? hread]
  refine congrArg some ?_
  calc is.map (fun i => read (t.ofInt i)) = is.map id :=
        List.map_congr_left fun i hi => ElementType.read_ofInt hread (h i hi)
    _ = is := List.map_id is

/-- Integers keep their values in 64 bits. -/
theorem toInts?_cast_int64 (h : b.elementType.isFloat = false) :
    ∃ is, b.toInts? = some is ∧ (b.cast .int64).toInts? = some is := by
  obtain ⟨is, his, hrange⟩ := exists_toInts? h
  refine ⟨is, his, ?_⟩
  rw [cast_of_toInts? his]
  exact toInts?_ofInts_of_inRange rfl fun i hi => ElementType.inRange_int64 (hrange i hi)

/-- The integers of a cast are those of the buffer, written and read again. -/
theorem toInts?_cast (h : b.elementType.isFloat = false) (ht : t.isFloat = false) :
    ∃ is read, b.toInts? = some is ∧ t.intReading? = some read ∧
      (b.cast t).toInts? = some (is.map fun i => read (t.ofInt i)) := by
  obtain ⟨is, his, -⟩ := exists_toInts? h
  obtain ⟨read, hread⟩ := ElementType.intReading?_isSome ht
  refine ⟨is, read, his, hread, ?_⟩
  rw [cast_of_toInts? his]
  exact toInts?_ofInts_of_intReading? hread is

/-- A wider type keeps the residues of a narrower one. -/
theorem cast_cast_of_bitWidth_le (h : b.elementType.isFloat = false) (ht : t.IsInteger)
    (hu : u.IsInteger) (hle : u.bitWidth ≤ t.bitWidth) : (b.cast t).cast u = b.cast u := by
  obtain ⟨is, read, his, hread, hcast⟩ := toInts?_cast h ht.isFloat
  rw [cast_of_toInts? hcast, cast_of_toInts? his, ofInts, ofInts, List.map_map]
  refine congrArg _ (List.map_congr_left fun i _ => ?_)
  exact hu.ofInt_congr (ElementType.modEq_of_bitWidth_le hle (ht.read_ofInt_modEq hread i))

/-- A type that has all the integers of a buffer's type loses none of them. -/
theorem cast_cast_of_contains (h : b.elementType.isFloat = false) (ht : t.isFloat = false)
    (hcontains : ∀ i, b.elementType.InRange i → t.InRange i) :
    (b.cast t).cast b.elementType = b := by
  obtain ⟨is, his, hrange⟩ := exists_toInts? h
  have hcast := toInts?_ofInts_of_inRange ht fun i hi => hcontains i (hrange i hi)
  rw [← cast_of_toInts? his t] at hcast
  rw [cast_of_toInts? hcast, ofInts_of_toInts? his]

/-- A cast to an integer type reduces every integer modulo the width, so one that fits
stays as it is; nothing is lost on the way to a type that has all the integers of the
first and back; and a cast to a type that is at least as wide may be left out before
another one. -/
theorem cast_wraps (b : Buffer) (h : b.elementType.isFloat = false) :
    (∀ t : ElementType, t.IsInteger → (b.cast t).elementType = t ∧
      ∃ is js, b.toInts? = some is ∧ (b.cast t).toInts? = some js ∧
        List.Forall₂ (fun i j => t.Wraps i j ∧ (t.InRange i → j = i)) is js) ∧
    (∀ t : ElementType, t.isFloat = false → (∀ i, b.elementType.InRange i → t.InRange i) →
      (b.cast t).cast b.elementType = b) ∧
    ∀ t u : ElementType, t.IsInteger → u.IsInteger → u.bitWidth ≤ t.bitWidth →
      (b.cast t).cast u = b.cast u := by
  refine ⟨?_, fun t => cast_cast_of_contains h, fun t u => cast_cast_of_bitWidth_le h⟩
  intro t ht
  obtain ⟨is, read, his, hread, hcast⟩ := toInts?_cast h ht.isFloat
  refine ⟨b.elementType_cast t, is, _, his, hcast, ?_⟩
  rw [List.forall₂_map_right_iff, List.forall₂_same]
  intro i _
  exact ⟨ht.wraps hread i, ElementType.read_ofInt hread⟩

/-- The lower end of a range, minus one, and an integer of more than a byte. -/
def shorts : Buffer := ofInts .int16 [-32768, -1, 300]

theorem cast_wraps_shorts :
    shorts.toInts? = some [-32768, -1, 300] ∧ (shorts.cast .uint8).toInts? = some [0, 255, 44] ∧
      List.Forall₂ (fun i j => ElementType.uint8.Wraps i j ∧ (ElementType.uint8.InRange i → j = i))
        [-32768, -1, 300] [0, 255, 44] ∧
      (shorts.cast .int32).cast .int16 = shorts ∧
      (shorts.cast .int64).cast .uint8 = shorts.cast .uint8 := by
  obtain ⟨hwraps, hreturns, hshortens⟩ := cast_wraps shorts (by decide)
  obtain ⟨-, is, js, his, hjs, hall⟩ := hwraps .uint8 (by decide)
  have hread : shorts.toInts? = some [-32768, -1, 300] := by decide
  have hcast : (shorts.cast .uint8).toInts? = some [0, 255, 44] := by decide
  obtain rfl := Option.some.inj (his.symm.trans hread)
  obtain rfl := Option.some.inj (hjs.symm.trans hcast)
  refine ⟨hread, hcast, hall, hreturns .int32 (by decide) ?_,
    hshortens .int64 .uint8 (by decide) (by decide) (by decide)⟩
  intro i hi
  have hshort : -2 ^ 15 ≤ i ∧ i < 2 ^ 15 := hi
  change -2 ^ 31 ≤ i ∧ i < 2 ^ 31
  omega

end Buffer

end Relayout
