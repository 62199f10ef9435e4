/-
# A moved buffer, index by index

`permuteBuffer` reads one element per step of a walk and writes the results one
behind the other, so its law is about two things at once.  Every step of the
walk goes through: the wheels never take back more than the offset holds, and
the offset stays inside the buffer (`walked_turned`).  And what is read in the
end is the transpose: the element at a multi-index of the shape stands at the
moved multi-index of the moved shape.  An extent of zero makes the buffer empty
and the walk has no step.
-/
import Relayout.Proofs.Layout.Transpose

namespace Relayout

variable {α : Type}

theorem length_of_inside : ∀ {shape index : List Nat}, Inside index shape →
    index.length = shape.length
  | [], [], _ => rfl
  | _ :: _, _ :: _, h => congrArg (· + 1) (length_of_inside h.2)

/-! ## The states of a walk -/

/-- The wheels at the start of a walk, last axis first. -/
def startWheels (extents strides : List Nat) : List Wheel :=
  ((extents.zip strides).map fun (extent, stride) => Wheel.mk extent stride 0).reverse

/-- The wheels and the offset some steps on. -/
def walked : Nat → List Wheel → Nat → Except Violation (List Wheel × Nat)
  | 0, wheels, offset => .ok (wheels, offset)
  | count + 1, wheels, offset => do
      let (wheels, offset) ← advanceWheels wheels offset
      walked count wheels offset

theorem walked_turned {axes : List (Nat × Nat)} (h : ∀ a ∈ axes, 0 < a.1) (count n : Nat) :
    walked count (turned axes n) (offsetAt axes n) =
      .ok (turned axes (n + count), offsetAt axes (n + count)) := by
  induction count generalizing n with
  | zero => rfl
  | succ count ih =>
      have hsum : n + 1 + count = n + (count + 1) := by omega
      rw [walked, advanceWheels_turned h, ← hsum]
      exact ih (n + 1)

theorem startWheels_eq_turned (extents strides : List Nat) :
    startWheels extents strides = turned (extents.zip strides).reverse 0 := by
  rw [turned_zero, startWheels, List.map_reverse]

namespace Layout

/-! ## Offsets -/

/-- The offset of a walk over some elements goes through their origins. -/
theorem walked_origin (l : Layout) {shape : List Nat} (h : shape.length = l.rank)
    (hpos : 0 < elementCount shape) (n : Nat) :
    walked n (startWheels (permutedDims l.perm shape)
      (permutedDims l.perm (rowMajorStrides shape))) 0 =
      .ok (turned ((permutedDims l.perm shape).zip
        (permutedDims l.perm (rowMajorStrides shape))).reverse n, origin l.perm shape n) := by
  have hwalk := walked_turned (fun _ => l.pos_of_mem_walk h hpos) n 0
  rwa [offsetAt_zero, ← startWheels_eq_turned, Nat.zero_add, l.offsetAt_eq_origin h] at hwalk

/-! ## Multi-indices -/

/-- Where the moved multi-index lies in the moved shape is read from where the
multi-index lies in the shape. -/
theorem origin_position (l : Layout) {shape index : List Nat} (h : shape.length = l.rank)
    (hinside : Inside index shape) :
    Inside (permutedDims l.perm index) (permutedDims l.perm shape) ∧
      origin l.perm shape (position (permutedDims l.perm shape) (permutedDims l.perm index)) =
        position shape index := by
  have hlength : index.length = l.rank := (length_of_inside hinside).trans h
  -- both lists are functions of the labels
  obtain ⟨f, rfl⟩ : ∃ f, l.source.map f = shape :=
    ⟨_, map_entryOf l.source_nodup (h.trans l.length_source.symm)⟩
  obtain ⟨g, rfl⟩ : ∃ g, l.source.map g = index :=
    ⟨_, map_entryOf l.source_nodup (hlength.trans l.length_source.symm)⟩
  have hlt := lt_of_inside_map hinside
  have hmoved : Inside (l.target.map g) (l.target.map f) :=
    inside_map fun label hl => hlt label (l.relabels.mem_iff.mp hl)
  rw [l.permutedDims_map, l.permutedDims_map]
  refine ⟨hmoved, ?_⟩
  rw [l.origin_perm, multiIndex_position hmoved]
  congr 1
  exact List.map_congr_left fun label hl => entryOf_map g (l.relabels.mem_iff.mpr hl)

/-- Moving a buffer that fills its shape goes through, and is the transpose.
No step of the walk takes the offset below zero, each of the `data.length`
reads is inside the buffer, and the element at a multi-index of the shape ends
up at the moved multi-index of the moved shape. -/
theorem permuteBuffer_moves (l : Layout) {shape : List Nat} {data : List α}
    (hshape : shape.length = l.rank) (hdata : data.length = elementCount shape) :
    ∃ dims strides out,
      l.permute shape = .ok dims ∧ l.permute (rowMajorStrides shape) = .ok strides ∧
      l.permuteBuffer data shape = .ok out ∧ out.length = data.length ∧
      (∀ n, n ≤ data.length → ∃ wheels offset,
        walked n (startWheels dims strides) 0 = .ok (wheels, offset) ∧
        (n < data.length → offset < data.length ∧ out[n]? = data[offset]?)) ∧
      ∀ index, Inside index shape → ∃ moved,
        l.permute index = .ok moved ∧ Inside moved dims ∧
        position shape index < data.length ∧ position dims moved < out.length ∧
        out[position dims moved]? = data[position shape index]? := by
  have hstrides : (rowMajorStrides shape).length = l.rank := by
    rw [length_rowMajorStrides, hshape]
  have horigin := l.origin_lt_length hshape hdata
  have hread := fun n => getElem?_transposed_perm hshape hdata (n := n)
  have hlength := length_transposed_perm hshape hdata
  refine ⟨_, _, _, l.permute_eq hshape, l.permute_eq hstrides, l.permuteBuffer_eq hshape hdata,
    hlength, fun n hn => ?_, fun index hindex => ?_⟩
  · rcases Nat.eq_zero_or_pos n with rfl | hpos
    · have hzero : origin l.perm shape 0 = 0 := by
        rw [← l.offsetAt_eq_origin hshape, offsetAt_zero]
      refine ⟨_, _, rfl, fun h => ⟨h, ?_⟩⟩
      rw [hread 0 (hdata ▸ h), hzero]
    · have hwalk := l.walked_origin hshape (hdata ▸ Nat.lt_of_lt_of_le hpos hn) n
      exact ⟨_, _, hwalk, fun h => ⟨horigin n (hdata ▸ h), hread n (hdata ▸ h)⟩⟩
  · have hrank : index.length = l.rank := (length_of_inside hindex).trans hshape
    obtain ⟨hinside, hposition⟩ := l.origin_position hshape hindex
    have hmoved := position_lt hinside
    rw [l.elementCount_permutedDims hshape] at hmoved
    refine ⟨_, l.permute_eq hrank, hinside, hdata ▸ position_lt hindex, ?_, ?_⟩
    · rw [hlength, hdata]
      exact hmoved
    · rw [hread _ hmoved, hposition]

/-- Height 1, width 0 and channel 2 of twelve activations: element 8 of the
buffer ends up at position 10. -/
theorem permuteBuffer_moves_activation :
    [1, 2, 2, 3].length = activation.rank ∧ (List.range 12).length = elementCount [1, 2, 2, 3] ∧
      Inside [0, 1, 0, 2] [1, 2, 2, 3] ∧
      ∃ out, activation.permuteBuffer (List.range 12) [1, 2, 2, 3] = .ok out ∧
        out.length = 12 ∧ out[10]? = some 8 := by
  have hshape : [1, 2, 2, 3].length = activation.rank := rfl
  have hdata : (List.range 12).length = elementCount [1, 2, 2, 3] := by decide
  have hinside : Inside [0, 1, 0, 2] [1, 2, 2, 3] := by simp [Inside]
  obtain ⟨_, _, out, hdims, -, hout, hlength, -, hmoves⟩ :=
    permuteBuffer_moves activation hshape hdata
  obtain ⟨_, hmoved, -, -, -, helement⟩ := hmoves _ hinside
  cases hdims
  cases hmoved
  exact ⟨hshape, hdata, hinside, out, hout, hlength, helement⟩

end Layout

end Relayout
