/-
# What adapting keeps

Whatever the names of a graph are, adapting keeps them, with the boundary, and
makes no data.  `Framed` says so, and every change that adapting makes keeps it.
-/
import Relayout.Proofs.Graph.Emitted

namespace Relayout.Graph

variable {s : Scope} {layouts : SortedMap ExplicitLayout} {g k k' : Graph} {t u : Tensor}
  {name : String}

/-- What holds of data holds whatever the edges of a tensor. -/
theorem settled_of_bare (h : u.bare = t.bare) (ht : t.Settled) : u.Settled := by
  have hbare : t.bare.Settled := ht
  rw [← h] at hbare
  exact hbare

/-- The graph `k` has the boundary and the names of `g`, and only constants have
data. -/
structure Framed (g k : Graph) : Prop where
  keeps : g.Keeps k
  inputs : k.inputs = g.inputs
  outputs : k.outputs = g.outputs
  settled : ∀ u ∈ k.tensors, u.Settled

theorem SpliceStep.settled {side : Side} {op : OpId} {shape : List Nat} {l : Layout}
    (h : k.SpliceStep side op t name shape l k') (hk : ∀ u ∈ k.tensors, u.Settled) :
    ∀ u ∈ k'.tensors, u.Settled := by
  intro u' hu'
  obtain ⟨u, ⟨hu, hr⟩ | ⟨hu | ⟨_, rfl⟩, hr⟩⟩ := h.exists_rewired hu'
  · exact settled_of_bare hr.bare (hk u hu)
  · exact settled_of_bare (t := u.completed shape l) hr.bare (hk u hu)
  · exact settled_of_bare hr.bare rfl

theorem Framed.inputAdapted (h : Framed g k) (op : OpId) (input : TensorId) :
    Framed g (k.inputAdapted op input) := by
  obtain ⟨-, hin, hout, -⟩ := inputAdapted_frame k op input
  suffices hk : k.Keeps (k.inputAdapted op input) ∧
      ∀ u ∈ (k.inputAdapted op input).tensors, u.Settled from
    ⟨h.keeps.trans hk.1, hin.trans h.inputs, hout.trans h.outputs, hk.2⟩
  unfold Graph.inputAdapted
  split
  · unfold inputPreserved
    split
    · refine ⟨keeps_readingInstead _ _ _ _, fun u' hu' => ?_⟩
      obtain ⟨j, hj⟩ := List.getElem?_of_mem hu'
      obtain ⟨u, hu, hr, -⟩ := before_readingInstead hj
      exact settled_of_bare hr.bare (h.settled u (List.mem_of_getElem? hu))
    · exact ⟨keeps_inputSpliced _ _ _ _ _, (inputSpliced_step _ _ _ _ _).settled h.settled⟩
  · exact ⟨.refl k, h.settled⟩

theorem Framed.outputAdapted (h : Framed g k) (op : OpId) (output : TensorId) :
    Framed g (k.outputAdapted op output) := by
  obtain ⟨-, hin, hout, -⟩ := outputAdapted_frame k op output
  suffices hk : k.Keeps (k.outputAdapted op output) ∧
      ∀ u ∈ (k.outputAdapted op output).tensors, u.Settled from
    ⟨h.keeps.trans hk.1, hin.trans h.inputs, hout.trans h.outputs, hk.2⟩
  unfold Graph.outputAdapted
  split
  · exact ⟨keeps_outputPreserved _ _ _ _ _, (outputPreserved_step _ _ _ _ _).settled h.settled⟩
  · exact ⟨.refl k, h.settled⟩

theorem framed_moved (h : ∀ t ∈ g.tensors, t.Settled) : Framed g g.moved where
  keeps := keeps_of_names (by
    rw [moved, List.map_map]
    exact List.map_congr_left fun t _ => t.moved_name)
  inputs := rfl
  outputs := rfl
  settled := by
    intro u hu
    obtain ⟨t, ht, rfl⟩ := List.mem_map.mp hu
    rw [Tensor.Settled, Tensor.moved_isInitializer, Tensor.isSome_data_moved]
    exact h t ht

/-- Adapting keeps the frame of any graph. -/
theorem framed_adapted (h : ∀ t ∈ g.tensors, t.Settled) : Framed g g.adapted := by
  suffices hupTo : ∀ n, Framed g (g.adaptedUpTo n) from hupTo g.ops.length
  intro n
  induction n with
  | zero => exact framed_moved h
  | succ n ih =>
      rw [Graph.adaptedUpTo, adaptedOp]
      split
      · have hoperands : ∀ o, Framed g ((g.adaptedUpTo n).operandsAdapted n o) := by
          intro o
          unfold operandsAdapted
          split
          · exact (ih.inputAdapted _ _).outputAdapted _ _
          · exact ih
        have hk := hoperands ‹_›
        exact ⟨hk.keeps.trans (extends_marked n _).keeps, hk.inputs, hk.outputs, hk.settled⟩
      · exact ih

theorem Intake.settled_of_mem (h : Intake s layouts g) (ht : t ∈ g.tensors) : t.Settled :=
  h.taken.registry.isInitializer_eq (t := t.bare) (List.mem_map_of_mem ht)

/-- The adapted graph has the frame of the one that was read. -/
theorem Intake.framed (h : Intake s layouts g) : Framed g g.adapted :=
  framed_adapted fun _ ht => h.settled_of_mem ht

end Relayout.Graph
