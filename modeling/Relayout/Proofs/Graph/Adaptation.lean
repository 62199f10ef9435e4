/-
# What adapting an operator does

Adapting an operator to its moved neighbours never stops because of the input.
It breaks an invariant exactly if an operand clashes: the operand has another
rank than its layout, or the name of the tensor to synthesize belongs to a
tensor that was moved.  Otherwise it leaves the graph that `adapted` writes
down.
-/
import Relayout.Proofs.Graph.Moves
import Relayout.Proofs.Graph.Splice

namespace Relayout.Graph

variable {g : Graph} {id : OpId} {operand : TensorId} {o : Operator} {t : Tensor} {l : Layout}

/-! ## One side -/

/-- A name belongs to a tensor that was moved. -/
def Occupied (g : Graph) (name : String) : Prop :=
  ∃ e u, g.lookup? name = some e ∧ g.tensors[e.index]? = some u ∧ u.status.isTransformed = true

/-- An input cannot be turned back. -/
def InputClash (g : Graph) (t : Tensor) (l : Layout) : Prop :=
  t.rank ≠ l.rank ∨
    producerNamed? g (synthesizedName "Transposed" t.name) = none ∧
      g.Occupied (synthesizedName "Transposed" t.name)

/-- An output cannot be turned. -/
def OutputClash (g : Graph) (t : Tensor) (l : Layout) : Prop :=
  t.rank ≠ l.rank ∨ g.Occupied (synthesizedName "ToTranspose" t.name)

/-- The graph with a new transpose before `reader`. -/
def inputSpliced (g : Graph) (reader : OpId) (operand : TensorId) (t : Tensor) (l : Layout) :
    Graph :=
  let name := synthesizedName "Transposed" t.name
  let derived := g.withDerived t name
  (derived.2.completing derived.1 (permutedDims l.inverse.perm t.shape) l.inverse).transposedBefore
    reader operand derived.1 l.inverse.perm name

/-- The graph in which `reader` reads its input in source order. -/
def inputPreserved (g : Graph) (reader : OpId) (operand : TensorId) (t : Tensor) (l : Layout) :
    Graph :=
  match producerNamed? g (synthesizedName "Transposed" t.name) with
  | some (existing, _) => g.readingInstead reader operand existing
  | none => g.inputSpliced reader operand t l

/-- The graph in which `writer` writes its output in source order. -/
def outputPreserved (g : Graph) (writer : OpId) (operand : TensorId) (t : Tensor) (l : Layout) :
    Graph :=
  let derived := g.withDerived t (synthesizedName "ToTranspose" t.name)
  (derived.2.completing derived.1 (permutedDims l.inverse.perm t.shape) l.inverse).transposedAfter
    writer operand derived.1 l.perm (synthesizedName "Transpose" t.name)

theorem producerNamed?_eq_some {name : String} {e : TensorId} {turn : OpId} :
    producerNamed? g name = some (e, turn) ↔
      ∃ u, g.lookup? name = some e ∧ g.tensors[e.index]? = some u ∧
        u.producers.head? = some turn := by
  unfold producerNamed?
  cases g.lookup? name with
  | none => simp
  | some e' =>
      cases hu : g.tensors[e'.index]? with
      | none =>
          simp only [bind, Option.bind_some, hu, Option.bind_none, reduceCtorEq, false_iff]
          rintro ⟨u, ⟨⟩, hu', -⟩
          rw [hu] at hu'
          cases hu'
      | some u =>
          simp only [bind, Option.bind_some, hu, Option.bind_eq_some_iff, Option.some.injEq,
            pure, Prod.mk.injEq]
          constructor
          · rintro ⟨turn', hturn, rfl, rfl⟩
            exact ⟨u, rfl, hu, hturn⟩
          · rintro ⟨u', rfl, hu', hturn⟩
            rw [hu] at hu'
            cases hu'
            exact ⟨turn, hturn, rfl, rfl⟩

/-- The tensor of a synthesized name is open, unless the name is occupied. -/
theorem getElem?_withDerived (hg : g.Named) (t : Tensor) (name : String) :
    ∃ u, (g.withDerived t name).2.tensors[(g.withDerived t name).1.index]? = some u ∧
      (u.status.isTransformed = true ↔ g.Occupied name) := by
  cases hlookup : g.lookup? name with
  | some e =>
      obtain ⟨u, hu, -⟩ := lookup?_eq_some hg hlookup
      refine ⟨u, by simpa [withDerived, hlookup] using hu, fun h => ⟨e, u, hlookup, hu, h⟩, ?_⟩
      rintro ⟨e', u', he', hu', h⟩
      rw [hlookup] at he'
      cases he'
      rw [hu] at hu'
      cases hu'
      exact h
  | none =>
      refine ⟨t.derived name ⟨g.tensors.length⟩, by simp [withDerived, hlookup],
        fun h => absurd h ?_, ?_⟩
      · simp [Tensor.derived, Tensor.fresh, Status.isTransformed, Status.stage]
      rintro ⟨e', u', he', -⟩
      rw [hlookup] at he'
      cases he'

/-- Deriving a tensor leaves its name in the table, and everything else as it was. -/
theorem lookup?_withDerived (g : Graph) (t : Tensor) (name name' : String) :
    (g.withDerived t name).2.lookup? name' =
      if name' = name then some (g.withDerived t name).1 else g.lookup? name' := by
  unfold withDerived
  cases hlookup : g.lookup? name with
  | some e =>
      dsimp only
      split
      · rename_i heq
        rw [heq, hlookup]
      · rfl
  | none => exact lookup?_adding ..

theorem named_withDerived (hg : g.Named) (t : Tensor) (name : String) :
    (g.withDerived t name).2.Named := by
  unfold withDerived
  cases hlookup : g.lookup? name with
  | some e => exact hg
  | none => exact hg.adding hlookup

/-- A tensor is derived as one that is there exactly if it has the name. -/
theorem withDerived_index_iff (t : Tensor) (name : String) {j : Nat}
    (hj : j < g.tensors.length) :
    (g.withDerived t name).1.index = j ↔ g.lookup? name = some ⟨j⟩ := by
  unfold withDerived
  cases g.lookup? name with
  | some id =>
      cases id
      simp
  | none =>
      simp only [reduceCtorEq, iff_false]
      omega

/-- Of the tensors that were there the one of the name is completed. -/
theorem getElem?_completing_of_lt {j : Nat} (hu : g.tensors[j]? = some u) (t : Tensor)
    (name : String) (shape : List Nat) (l : Layout) :
    ((g.withDerived t name).2.completing (g.withDerived t name).1 shape l).tensors[j]? =
      some (if g.lookup? name = some ⟨j⟩ then u.completed shape l else u) := by
  have hlt := (List.getElem?_eq_some_iff.mp hu).1
  have hd : (g.withDerived t name).2.tensors[j]? = some u := by
    unfold withDerived
    split
    · exact hu
    · rw [tensors_adding, List.getElem?_append_left hlt, hu]
  rw [completing, List.getElem?_modify, hd]
  simp only [withDerived_index_iff t name hlt, Option.map_eq_map, Option.map_some]

/-- The only tensor behind those that were there is the derived one, completed. -/
theorem getElem?_completing_of_le {j : Nat} (hj : g.tensors.length ≤ j) {t u : Tensor}
    {name : String} {shape : List Nat} {l : Layout}
    (hu : ((g.withDerived t name).2.completing (g.withDerived t name).1 shape l).tensors[j]? =
      some u) :
    g.lookup? name = none ∧ j = g.tensors.length ∧ (g.withDerived t name).1.index = j ∧
      u = (t.derived name ⟨j⟩).completed shape l := by
  have hlt := (List.getElem?_eq_some_iff.mp hu).1
  unfold withDerived at hu hlt ⊢
  cases hlookup : g.lookup? name with
  | some id =>
      rw [hlookup] at hlt
      simp only [completing, List.length_modify] at hlt
      omega
  | none =>
      rw [hlookup] at hu hlt
      simp only [completing, tensors_adding, List.length_modify, List.length_append,
        List.length_singleton] at hlt
      obtain rfl : j = g.tensors.length := by omega
      refine ⟨rfl, rfl, rfl, ?_⟩
      simp only [completing, tensors_adding, List.getElem?_modify_eq,
        List.getElem?_concat_length] at hu
      exact (Option.some.inj hu).symm

/-- A tensor that was there keeps its edges. -/
theorem getElem?_completing (ht : g.tensors[operand.index]? = some t) (u : Tensor) (name : String)
    (shape : List Nat) (l : Layout) :
    ∃ t', ((g.withDerived u name).2.completing (g.withDerived u name).1 shape l).tensors[
        operand.index]? = some t' ∧ t'.consumers = t.consumers ∧ t'.producers = t.producers :=
  ⟨_, getElem?_completing_of_lt ht u name shape l, by split <;> rfl, by split <;> rfl⟩

theorem withDerived_ops (t : Tensor) (name : String) : (g.withDerived t name).2.ops = g.ops := by
  unfold withDerived
  split <;> rfl

section Preserving

variable {α : Type} {C : Prop} {Q : α → Graph → Prop}

/-- The shape of a tensor is turned back, if it has the rank of its layout. -/
theorem turnBack_ends {k : List Nat → Step Graph α} (hbroken : t.rank ≠ l.rank → C)
    (hgo : t.rank = l.rank →
      Step.Ends (Fault.Broken C) Q (k (permutedDims l.inverse.perm t.shape) g)) :
    Step.Ends (Fault.Broken C) Q ((liftM (l.inverse.permute t.shape) >>= k) g) := by
  by_cases hrank : t.rank = l.rank
  · have hshape : l.inverse.permute t.shape = .ok (permutedDims l.inverse.perm t.shape) :=
      l.inverse.permute_eq (by rw [Layout.rank_inverse]; exact hrank)
    rw [hshape, Step.run_bind_of_ok (Step.run_liftViolation_ok _ _)]
    exact hgo hrank
  · obtain ⟨v, hv⟩ : ∃ v, l.inverse.permute t.shape = .error v :=
      ⟨_, l.inverse.permute_of_length_ne (by rw [Layout.rank_inverse]; exact hrank)⟩
    rw [hv, Step.run_bind_of_error (Step.run_liftViolation_error _ _)]
    exact ⟨⟨v, rfl⟩, hbroken hrank⟩

/-- The tensor on the other side of a transpose is derived and completed, if
its name is free. -/
theorem deriveComplete_ends {k : TensorId → Step Graph α} {shape : List Nat} {name : String}
    (hg : g.Named) (ht : g.tensors[operand.index]? = some t) (hbroken : g.Occupied name → C)
    (hgo : ∀ moved g', moved = (g.withDerived t name).1 →
      g' = (g.withDerived t name).2.completing moved shape l.inverse → ¬g.Occupied name →
      moved.index < g'.tensors.length → Step.Ends (Fault.Broken C) Q (k moved g')) :
    Step.Ends (Fault.Broken C) Q
      ((derive operand name false >>= fun moved => complete moved shape l.inverse >>= fun _ =>
        k moved) g) := by
  obtain ⟨u, hu, hoccupied⟩ := getElem?_withDerived hg t name
  rw [Step.run_bind_of_ok (derive_run ht _)]
  cases hopen : u.status.isTransformed with
  | true =>
      obtain ⟨v, g', hrun⟩ := complete_error hu hopen shape l.inverse
      rw [Step.run_bind_of_error hrun]
      exact ⟨⟨v, rfl⟩, hbroken (hoccupied.mp hopen)⟩
  | false =>
      have hfree : ¬g.Occupied name := fun h => by
        rw [hoccupied.mpr h] at hopen
        cases hopen
      rw [Step.run_bind_of_ok (complete_run hu hopen _ _)]
      exact hgo _ _ rfl rfl hfree (by simpa [completing] using (List.getElem?_eq_some_iff.mp hu).1)

end Preserving

theorem preserveInput_ends (hg : g.Named) (ho : g.ops[id.index]? = some o)
    (hparsed : o.status.isParsed = true) (h0 : o.inputs[0]? = some operand)
    (ht : g.tensors[operand.index]? = some t) (hl : t.layout = some l) (hreader : id ∈ t.consumers)
    (hproducers : ∀ u ∈ g.tensors, ∀ p ∈ u.producers, p.index < g.ops.length) :
    Step.Ends (Fault.Broken (g.InputClash t l))
      (fun _ g' => ¬g.InputClash t l ∧ g' = g.inputPreserved id operand t l)
      (preserveInput id 0 g) := by
  unfold preserveInput
  rw [run_opening ho hparsed (entryAt_of_getElem? h0) ht, layoutOf, hl,
    Step.run_bind_of_ok (Step.run_lift_ok _ _)]
  refine turnBack_ends Or.inl fun hrank => ?_
  rw [Step.run_bind_of_ok (Step.run_get g)]
  cases hnamed : producerNamed? g (synthesizedName "Transposed" t.name) with
  | some found =>
      -- the transpose that other readers share
      obtain ⟨existing, turn⟩ := found
      obtain ⟨u, -, hu, hturn⟩ := producerNamed?_eq_some.mp hnamed
      have hturn' := hproducers u (List.mem_of_getElem? hu) turn (List.mem_of_head? hturn)
      have hlt := (List.getElem?_eq_some_iff.mp ht).1
      obtain ⟨o', ho'⟩ : ∃ o', (g.readingInstead id operand existing).ops[turn.index]? =
          some o' := ⟨_, List.getElem?_eq_getElem (by simpa [readingInstead] using hturn')⟩
      dsimp only
      rw [Step.run_bind_of_ok (readInstead_run ho h0 hlt (List.getElem?_eq_some_iff.mp hu).1),
        Step.run_bind_of_ok (run_op ho')]
      refine ⟨?_, by rw [inputPreserved, hnamed]⟩
      rintro (h | ⟨h, -⟩)
      · exact h hrank
      · rw [hnamed] at h
        cases h
  | none =>
      refine deriveComplete_ends hg ht (fun h => Or.inr ⟨hnamed, h⟩) ?_
      rintro moved _ rfl rfl hfree hlt
      obtain ⟨t', ht', hconsumers, -⟩ := getElem?_completing ht t
        (synthesizedName "Transposed" t.name) (permutedDims l.inverse.perm t.shape) l.inverse
      rw [transposeBefore_run (by rw [completing, withDerived_ops]; exact ho) h0 ht'
        (by rw [hconsumers]; exact hreader) hlt]
      exact ⟨not_or.mpr ⟨not_not.mpr hrank, fun h => hfree h.2⟩, by
        rw [inputPreserved, hnamed]; rfl⟩

theorem preserveOutput_ends (hg : g.Named) (ho : g.ops[id.index]? = some o)
    (hparsed : o.status.isParsed = true) (h0 : o.outputs[0]? = some operand)
    (ht : g.tensors[operand.index]? = some t) (hl : t.layout = some l)
    (hwriter : id ∈ t.producers) :
    Step.Ends (Fault.Broken (g.OutputClash t l))
      (fun _ g' => ¬g.OutputClash t l ∧ g' = g.outputPreserved id operand t l)
      (preserveOutput id 0 g) := by
  unfold preserveOutput
  rw [run_opening ho hparsed (entryAt_of_getElem? h0) ht, layoutOf, hl,
    Step.run_bind_of_ok (Step.run_lift_ok _ _)]
  refine turnBack_ends Or.inl fun hrank => deriveComplete_ends hg ht Or.inr ?_
  rintro moved _ rfl rfl hfree hlt
  obtain ⟨t', ht', -, hproducers⟩ := getElem?_completing ht t
    (synthesizedName "ToTranspose" t.name) (permutedDims l.inverse.perm t.shape) l.inverse
  rw [transposeAfter_run (by rw [completing, withDerived_ops]; exact ho) h0 ht'
    (by rw [hproducers]; exact hwriter) hlt]
  exact ⟨not_or.mpr ⟨not_not.mpr hrank, hfree⟩, rfl⟩

end Relayout.Graph
