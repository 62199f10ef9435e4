/-
# Adapting all operators

The pass over the operators of a graph that was read, as an equation.
`Graph.adaptedUpTo` writes down the graph after each operator.  The pass goes
through exactly if nothing clashes, and then leaves that graph; otherwise it
breaks an invariant.
-/
import Relayout.Proofs.Graph.Adapting

namespace Relayout.Graph

variable {g k : Graph} {u : Tensor}

/-! ## One operator -/

section Run

variable {id : OpId} {operand : TensorId} {o : Operator}

theorem adaptInput_ends (hk : k.Named) (ho : k.ops[id.index]? = some o)
    (hparsed : o.status.isParsed = true) (h0 : o.inputs[0]? = some operand)
    (hu : k.tensors[operand.index]? = some u) (hreader : id ∈ u.consumers)
    (hproducers : ∀ u ∈ k.tensors, ∀ p ∈ u.producers, p.index < k.ops.length) :
    Step.Ends (Fault.Broken (∃ l, u.layout = some l ∧ k.InputClash u l))
      (fun _ k' => (¬∃ l, u.layout = some l ∧ k.InputClash u l) ∧ k' = k.inputAdapted id operand)
      (adaptInput id operand k) := by
  unfold adaptInput
  rw [Step.run_bind_of_ok (run_tensor hu)]
  cases hl : u.layout with
  | none =>
      rw [if_neg (by simp)]
      exact ⟨by rintro ⟨l, ⟨⟩, -⟩, (inputAdapted_of_none hu hl).symm⟩
  | some l =>
      rw [if_pos Option.isSome_some, inputAdapted_of_some hu hl]
      refine ((preserveInput_ends hk ho hparsed h0 hu hl hreader hproducers).discard.weaken
        fun e he => he.imp fun hclash => ⟨l, rfl, hclash⟩).mono ?_
      rintro _ k' ⟨_, hno, hk'⟩
      refine ⟨?_, hk'⟩
      rintro ⟨l', hl', hclash⟩
      cases hl'
      exact hno hclash

theorem adaptOutput_ends (hk : k.Named) (ho : k.ops[id.index]? = some o)
    (hparsed : o.status.isParsed = true) (h0 : o.outputs[0]? = some operand)
    (hu : k.tensors[operand.index]? = some u) (hwriter : id ∈ u.producers) :
    Step.Ends (Fault.Broken (∃ l, u.layout = some l ∧ k.OutputClash u l))
      (fun _ k' => (¬∃ l, u.layout = some l ∧ k.OutputClash u l) ∧
        k' = k.outputAdapted id operand)
      (adaptOutput id operand k) := by
  unfold adaptOutput
  rw [Step.run_bind_of_ok (run_tensor hu)]
  cases hl : u.layout with
  | none =>
      rw [if_neg (by simp)]
      exact ⟨by rintro ⟨l, ⟨⟩, -⟩, (outputAdapted_of_none hu hl).symm⟩
  | some l =>
      rw [if_pos Option.isSome_some, outputAdapted_of_some hu hl]
      refine ((preserveOutput_ends hk ho hparsed h0 hu hl hwriter).discard.weaken
        fun e he => he.imp fun hclash => ⟨l, rfl, hclash⟩).mono ?_
      rintro _ k' ⟨_, hno, hk'⟩
      refine ⟨?_, hk'⟩
      rintro ⟨l', hl', hclash⟩
      cases hl'
      exact hno hclash

end Run

section Adapt

variable {n : Nat} {o o' : Operator} (h : Adapting g (g.Tagged n) n n k)
  (ho : g.ops[n]? = some o) (ho' : k.ops[n]? = some o') (ha : Awaits n n n o o')

include h ho ho' ha

/-- A reshape is adapted at its input, then at its output. -/
theorem adaptReshape_ends {x y : Tensor} (hwired : g.Wired) (hm : ∀ t ∈ g.tensors, t.Movable)
    (hreshape : g.Reshapes n x y) :
    Step.Ends (Fault.Broken (g.ClashesAt n))
      (fun _ k' => ¬g.ClashesAt n ∧ k' = k.operandsAdapted n o' ∧
        ∃ o'', k'.ops[n]? = some o'' ∧ (o''.status = .parsed ∨ o''.status = .transformed))
      (adapt ⟨n⟩ o' k) := by
  obtain ⟨_, input, output, ho₁, hk, hinput, hx, houtput, hy⟩ := id hreshape
  obtain rfl := Option.some.inj (ho.symm.trans ho₁)
  have hparsed : o'.status.isParsed = true := by
    rw [ha.parsed (Nat.le_refl n)]
    rfl
  have hins := ha.inputs (Nat.le_refl n)
  have houts := ha.outputs (Nat.le_refl n)
  obtain ⟨u, hu, -⟩ := h.old hx
  have hmx := hm x (List.mem_of_getElem? hx)
  have hmy := hm y (List.mem_of_getElem? hy)
  rw [adapt, operandsAdapted, ha.kind, hk, hins, hinput, houts, houtput]
  dsimp only
  rw [Operator.input, hins, entryAt_of_getElem? hinput,
    Step.run_bind_of_ok (Step.run_liftViolation_ok _ _), Operator.output, houts,
    entryAt_of_getElem? houtput, Step.run_bind_of_ok (Step.run_liftViolation_ok _ _),
    if_neg (by simp)]
  have hin := h.inputClash_iff hx hmx hu
  refine Step.Ends.bind
    (R := fun _ k' => ¬g.ClashesIn n x ∧ k' = k.inputAdapted ⟨n⟩ input) ?_ ?_
  · refine ((adaptInput_ends h.named ho' hparsed (by rw [hins, hinput]) hu
      (h.reader (Nat.le_refl n) ho hinput hu) h.sound.producers).weaken fun e he =>
        he.imp fun hclash => ⟨x, y, hreshape, Or.inl (hin.mp hclash)⟩).mono ?_
    rintro _ k' ⟨hno, hk'⟩
    exact ⟨fun hc => hno (hin.mpr hc), hk'⟩
  · rintro _ _ ⟨hno, rfl⟩
    have h₁ := h.adaptInput ho hx hmx hno
    obtain ⟨v, hv, -⟩ := h₁.old hy
    obtain ⟨o₁, ho₁, ha₁⟩ := h₁.ops ho
    have hstatus₁ := ha₁.parsed (Nat.le_refl n)
    have hout := h₁.outputClash_iff (n := n) (tagged_output_iff hwired hreshape) hy hmy hv
    refine ((adaptOutput_ends h₁.named ho₁ (by rw [hstatus₁]; rfl)
      (by rw [ha₁.outputs (Nat.le_refl n), houtput]) hv
      (h₁.writer (Nat.le_refl n) ho houtput hv)).weaken fun e he =>
        he.imp fun hclash => ⟨x, y, hreshape, Or.inr (hout.mp hclash)⟩).mono ?_
    rintro _ k' ⟨hno', rfl⟩
    have hnoOut : ¬g.ClashesOut n y := fun hc => hno' (hout.mpr hc)
    have h₂ := h₁.adaptOutput ho hy (tagged_output_iff hwired hreshape) hmy hnoOut
    obtain ⟨o₂, ho₂, ha₂⟩ := h₂.ops ho
    refine ⟨?_, rfl, o₂, ho₂, ha₂.status⟩
    rintro ⟨x', y', hreshape', hc⟩
    obtain ⟨rfl, rfl⟩ := hreshape.unique hreshape'
    exact hc.elim hno hnoOut

theorem adapt_ends (hwired : g.Wired) (hm : ∀ t ∈ g.tensors, t.Movable)
    (hkind : (∃ c, o.kind = .conv c) ∨ ∃ x y, g.Reshapes n x y) :
    Step.Ends (Fault.Broken (g.ClashesAt n))
      (fun _ k' => ¬g.ClashesAt n ∧ k' = k.operandsAdapted n o' ∧
        ∃ o'', k'.ops[n]? = some o'' ∧ (o''.status = .parsed ∨ o''.status = .transformed))
      (adapt ⟨n⟩ o' k) := by
  rcases hkind with ⟨c, hconv⟩ | ⟨x, y, hreshape⟩
  · have hnone : ¬g.ClashesAt n := by
      rintro ⟨x, y, ⟨_, -, -, ho₁, hk, -⟩, -⟩
      obtain rfl := Option.some.inj (ho.symm.trans ho₁)
      rw [hconv] at hk
      cases hk
    rw [adapt, operandsAdapted, ha.kind, hconv]
    exact ⟨hnone, rfl, o', ho', Or.inl (ha.parsed (Nat.le_refl n))⟩
  · exact adaptReshape_ends h ho ho' ha hwired hm hreshape

end Adapt

/-- Adapting operator `n` breaks an invariant if it clashes, and otherwise does
what `adaptedOp` says. -/
theorem transformOp_ends {n : Nat} {o : Operator} (h : Adapting g (g.Tagged n) n n k)
    (hwired : g.Wired) (hm : ∀ t ∈ g.tensors, t.Movable) (ho : g.ops[n]? = some o)
    (hkind : (∃ c, o.kind = .conv c) ∨ ∃ x y, g.Reshapes n x y) :
    Step.Ends (Fault.Broken (g.ClashesAt n))
      (fun _ k' => ¬g.ClashesAt n ∧ k' = k.adaptedOp n) (transformOp ⟨n⟩ k) := by
  obtain ⟨o', ho', ha⟩ := h.ops ho
  have hstatus := ha.parsed (Nat.le_refl n)
  unfold transformOp
  rw [Step.run_bind_of_ok (run_op ho'),
    Step.run_bind_of_ok (Step.run_require (by rw [hstatus]; rfl) _ k),
    if_neg (by rw [hstatus]; decide)]
  refine (adapt_ends h ho ho' ha hwired hm hkind).bind ?_
  rintro _ k' ⟨hno, rfl, o'', ho'', hstatus'⟩
  rw [run_updateOp (f := fun o => { o with status := .transformed }) ho'']
  · exact ⟨hno, by rw [adaptedOp, ho']; rfl⟩
  · have hstage : o''.status.stage ≤ Status.transformed.stage := by
      rcases hstatus' with h | h <;> simp only [h] <;> decide
    rw [Operator.advance, Status.advance_of_le hstage]
    rfl

/-! ## The whole pass -/

/-- The graph after its tensors were moved and the operators before `n` were
adapted. -/
def adaptedUpTo (g : Graph) : Nat → Graph
  | 0 => g.moved
  | n + 1 => (g.adaptedUpTo n).adaptedOp n

/-- The graph after all operators were adapted. -/
def adapted (g : Graph) : Graph := g.adaptedUpTo g.ops.length

section Intake

variable {s : Scope} {layouts : SortedMap ExplicitLayout}

/-- An operator that was read is a convolution or a reshape. -/
theorem Intake.op_cases (h : Intake s layouts g) {n : Nat} {o : Operator}
    (ho : g.ops[n]? = some o) : (∃ c, o.kind = .conv c) ∨ ∃ x y, g.Reshapes n x y := by
  obtain ⟨-, c, -, -, hstands⟩ := h.stands_at ho
  have hkind := hstands.kind
  have hins := hstands.inputs
  have houts := hstands.outputs
  cases c with
  | conv x w b y => exact Or.inl hkind
  | reshape x shape y =>
      obtain ⟨input, rest, hi, hx, -⟩ := List.map_eq_cons_iff.mp hins
      obtain ⟨output, rest', hj, hy, -⟩ := List.map_eq_cons_iff.mp houts
      obtain ⟨t, ht, -⟩ := Option.map_eq_some_iff.mp hx
      obtain ⟨t', ht', -⟩ := Option.map_eq_some_iff.mp hy
      exact Or.inr ⟨t, t', o, input, output, ho, hkind, by rw [hi]; rfl, ht, by rw [hj]; rfl, ht'⟩

theorem Intake.named (h : Intake s layouts g) : g.Named := h.taken.named

/-- Before any operator is adapted. -/
theorem Intake.adapting (h : Intake s layouts g) : Adapting g (g.Tagged 0) 0 0 g.moved where
  named := h.named.moved
  sound := h.sound.moved
  old := by
    intro i t ht
    refine ⟨t.moved, by rw [moved, List.getElem?_map, ht]; rfl, t.moved_name, fun hl => ?_,
      fun hl => ?_, ?_⟩
    · exact ⟨t.bare_moved, by rw [t.moved_producers]⟩
    · rw [Tensor.moved_of_layout_none hl]
      have hstatus : t.status = .parsed := h.taken.registry.status (t := t.bare) (mem_bares ht)
      refine ⟨by rw [hstatus]; rfl, fun _ => rfl, fun l hl' => ?_⟩
      rw [hl] at hl'
      cases hl'
    · rw [t.moved_layout]
      refine ⟨.known, fun htag => ?_⟩
      cases htag with
      | known hl => exact hl
      | turned hi => exact absurd hi (Nat.not_lt_zero _)
      | spliced hi => exact absurd hi (Nat.not_lt_zero _)
  new := by
    intro i u hi hu
    have := (List.getElem?_eq_some_iff.mp hu).1
    simp only [moved, List.length_map] at this
    omega
  ops := by
    intro i o ho
    obtain ⟨-, c, -, -, hstands⟩ := h.stands_at ho
    exact ⟨o, ho, rfl, fun _ => rfl, fun _ => rfl, Or.inl hstands.status,
      fun _ => hstands.status⟩
  reader := by
    intro i o x u _ ho hx hu
    rw [moved, List.getElem?_map] at hu
    obtain ⟨t, ht, rfl⟩ := Option.map_eq_some_iff.mp hu
    rw [t.moved_consumers]
    exact h.taken.wired.mem_consumers ho ht (List.mem_of_getElem? hx)
  writer := by
    intro i o y u _ ho hy hu
    rw [moved, List.getElem?_map] at hu
    obtain ⟨t, ht, rfl⟩ := Option.map_eq_some_iff.mp hu
    rw [t.moved_producers]
    exact h.taken.wired.mem_producers ho ht (List.mem_of_getElem? hy)

/-- The pass keeps its invariant as long as nothing clashes. -/
theorem Intake.adaptedUpTo (h : Intake s layouts g) (hm : ∀ t ∈ g.tensors, t.Movable) {n : Nat}
    (hn : n ≤ g.ops.length) (hclash : ∀ i < n, ¬g.ClashesAt i) :
    Adapting g (g.Tagged n) n n (g.adaptedUpTo n) := by
  induction n with
  | zero => exact h.adapting
  | succ n ih =>
      have ho := List.getElem?_eq_getElem (Nat.lt_of_succ_le hn)
      exact (ih (Nat.le_of_succ_le hn) fun i hi => hclash i (Nat.lt_succ_of_lt hi)).adaptOp
        h.taken.wired hm ho (h.op_cases ho) (hclash n (Nat.lt_succ_self n))

/-- Adapting a graph that was read: an invariant breaks if something clashes,
and otherwise the graph is adapted up to its last operator. -/
theorem Intake.transform_ends (h : Intake s layouts g) :
    Step.Ends (Fault.Broken g.Clash)
      (fun _ g' => ¬g.Clash ∧ g' = g.adapted) (transform g) := by
  unfold transform adapted
  rw [Step.run_bind_of_ok (Step.run_get g)]
  refine Step.Ends.bind ((movePending_ends (fun t ht => ?_) fun t ht => ?_).weaken
    fun e he => he.imp Or.inl) ?_
  · exact h.taken.registry.status (t := t.bare) (List.mem_map_of_mem ht)
  · exact h.taken.registry.filled (t := t.bare) (List.mem_map_of_mem ht)
  rintro _ _ ⟨rfl, hm⟩
  rw [Step.run_bind_of_ok (Step.run_get _)]
  refine (Step.Ends.forM (I := fun done g' => (∀ i < done.length, ¬g.ClashesAt i) ∧
    g' = g.adaptedUpTo done.length) ⟨by simp, rfl⟩ ?_).mono ?_
  · rintro done n rest k hmembers ⟨hno, rfl⟩
    have hat : (List.range g.moved.ops.length)[done.length]? = some n := by
      rw [hmembers]
      simp
    obtain ⟨hlt, heq⟩ := List.getElem?_eq_some_iff.mp hat
    have hn : done.length = n := by simpa using heq
    subst hn
    have hlt : done.length < g.ops.length := by simpa [moved] using hlt
    have ho := List.getElem?_eq_getElem hlt
    refine ((transformOp_ends (h.adaptedUpTo hm (Nat.le_of_lt hlt) hno) h.taken.wired hm ho
      (h.op_cases ho)).weaken fun e he => he.imp ?_).mono ?_
    · rintro ⟨x, y, hr, hc⟩
      exact Or.inr ⟨_, x, y, hr, hc⟩
    · rintro _ k' ⟨hno', rfl⟩
      rw [List.length_append, List.length_singleton]
      refine ⟨fun i hi => ?_, rfl⟩
      rcases Nat.lt_succ_iff_lt_or_eq.mp hi with hi | rfl
      · exact hno i hi
      · exact hno'
  · rintro _ k ⟨hno, rfl⟩
    have hlen : (List.range g.moved.ops.length).length = g.ops.length := by simp [moved]
    rw [hlen] at hno ⊢
    refine ⟨?_, rfl⟩
    rintro (⟨t, ht, hnot⟩ | ⟨n, x, y, hr, hc⟩)
    · exact hnot (hm t ht)
    · have hr' := hr
      obtain ⟨o, -, -, ho, -⟩ := hr'
      exact hno n (List.getElem?_eq_some_iff.mp ho).1 ⟨x, y, hr, hc⟩

/-- Without a clash, the graph is adapted. -/
theorem Intake.run_transform (h : Intake s layouts g) (hclash : ¬g.Clash) :
    transform g = .ok () g.adapted := by
  have hends := h.transform_ends
  cases ht : transform g with
  | error e g' =>
      rw [ht] at hends
      exact absurd hends.2 hclash
  | ok _ g' =>
      rw [ht] at hends
      rw [hends.2]

/-- Without a clash the invariant of the pass holds at its end. -/
theorem Intake.adapting_adapted (h : Intake s layouts g) (hclash : ¬g.Clash) :
    Adapting g (g.Tagged g.ops.length) g.ops.length g.ops.length g.adapted :=
  h.adaptedUpTo (movable_of_not_clash hclash) (Nat.le_refl _)
    fun i _ => not_clashesAt_of_not_clash hclash i

/-- Operator `n` of a graph that was read is a reshape, from `x` in its first
input slot to `y` in its first output slot. -/
structure ReshapeAt (g : Graph) (n : Nat) (o : Operator) (input output : TensorId)
    (x y : Tensor) : Prop where
  op : g.ops[n]? = some o
  kind : o.kind = .reshape false
  reads : o.inputs[0]? = some input
  source : g.tensors[input.index]? = some x
  writes : o.outputs[0]? = some output
  target : g.tensors[output.index]? = some y

theorem ReshapeAt.reshapes {n : Nat} {o : Operator} {input output : TensorId} {x y : Tensor}
    (h : g.ReshapeAt n o input output x y) : g.Reshapes n x y :=
  ⟨o, input, output, h.op, h.kind, h.reads, h.source, h.writes, h.target⟩

/-- One operator is one reshape. -/
theorem ReshapeAt.unique {n : Nat} {o o' : Operator} {input output input' output' : TensorId}
    {x y x' y' : Tensor} (h : g.ReshapeAt n o input output x y)
    (h' : g.ReshapeAt n o' input' output' x' y') :
    input' = input ∧ output' = output ∧ x' = x ∧ y' = y := by
  obtain rfl := Option.some.inj (h.op.symm.trans h'.op)
  obtain rfl := Option.some.inj (h.reads.symm.trans h'.reads)
  obtain rfl := Option.some.inj (h.writes.symm.trans h'.writes)
  exact ⟨rfl, rfl, Option.some.inj (h'.source.symm.trans h.source),
    Option.some.inj (h'.target.symm.trans h.target)⟩

theorem Reshapes.reshapeAt {n : Nat} {x y : Tensor} (h : g.Reshapes n x y) :
    ∃ o input output, g.ReshapeAt n o input output x y := by
  obtain ⟨o, input, output, ho, hkind, hinput, hx, houtput, hy⟩ := h
  exact ⟨o, input, output, ho, hkind, hinput, hx, houtput, hy⟩

/-- What holds of the moved graph and is kept by every change of the pass holds
of the adapted graph.  `P reads writes k` speaks of the graph in which the
inputs of the operators before `reads` and the outputs of those before `writes`
were adapted. -/
theorem Intake.adapted_induction (h : Intake s layouts g) (hclash : ¬g.Clash)
    {P : Nat → Nat → Graph → Prop} (hmoved : P 0 0 g.moved)
    (hother : ∀ {n : Nat} {k : Graph}, n < g.ops.length → (∀ x y, ¬g.Reshapes n x y) →
      P n n k → P (n + 1) (n + 1) k)
    (hinput : ∀ {n : Nat} {o : Operator} {input output : TensorId} {x y : Tensor} {k : Graph},
      g.ReshapeAt n o input output x y → Adapting g (g.Tagged n) n n k → P n n k →
        P (n + 1) n (k.inputAdapted ⟨n⟩ input))
    (houtput : ∀ {n : Nat} {o : Operator} {input output : TensorId} {x y : Tensor} {k : Graph}
      {tagged : Tensor → Prop}, g.ReshapeAt n o input output x y →
      Adapting g tagged (n + 1) n k → (tagged y ↔ g.Tagged n y) → P (n + 1) n k →
        P (n + 1) (n + 1) (k.outputAdapted ⟨n⟩ output))
    (hmarked : ∀ {n : Nat} {k : Graph}, n < g.ops.length → P (n + 1) (n + 1) k →
      P (n + 1) (n + 1) (k.marked n)) :
    P g.ops.length g.ops.length g.adapted := by
  have hm := movable_of_not_clash hclash
  have hno := not_clashesAt_of_not_clash hclash
  suffices hupTo : ∀ n ≤ g.ops.length, P n n (g.adaptedUpTo n) from hupTo _ (Nat.le_refl _)
  intro n hn
  induction n with
  | zero => exact hmoved
  | succ n ih =>
      have hk := h.adaptedUpTo hm (Nat.le_of_succ_le hn) fun i _ => hno i
      have hP := ih (Nat.le_of_succ_le hn)
      have ho := List.getElem?_eq_getElem (Nat.lt_of_succ_le hn)
      obtain ⟨o', ho', ha⟩ := hk.ops ho
      rw [Graph.adaptedUpTo, adaptedOp, ho']
      refine hmarked (Nat.lt_of_succ_le hn) ?_
      rcases h.op_cases ho with ⟨c, hconv⟩ | ⟨x, y, hreshape⟩
      · have hsame : (g.adaptedUpTo n).operandsAdapted n o' = g.adaptedUpTo n := by
          rw [operandsAdapted, ha.kind, hconv]
        rw [hsame]
        refine hother (Nat.lt_of_succ_le hn) (fun x y hr => ?_) hP
        obtain ⟨o'', -, -, ho'', hkind, -⟩ := hr
        rw [ho] at ho''
        cases ho''
        rw [hconv] at hkind
        cases hkind
      · obtain ⟨o'', input, output, hat⟩ := hreshape.reshapeAt
        obtain rfl : g.ops[n] = o'' := Option.some.inj (ho.symm.trans hat.op)
        have hboth : (g.adaptedUpTo n).operandsAdapted n o' =
            ((g.adaptedUpTo n).inputAdapted ⟨n⟩ input).outputAdapted ⟨n⟩ output := by
          rw [operandsAdapted, ha.kind, hat.kind, ha.inputs (Nat.le_refl n), hat.reads,
            ha.outputs (Nat.le_refl n), hat.writes]
        rw [hboth]
        have h₁ := hk.adaptInput ho hat.source (hm x (List.mem_of_getElem? hat.source))
          fun hin => hno n ⟨x, y, hreshape, Or.inl hin⟩
        exact houtput hat h₁ (tagged_output_iff h.taken.wired hreshape) (hinput hat hk hP)

/-- A graph that was adapted is sound. -/
theorem Intake.adapted_sound (h : Intake s layouts g) (hclash : ¬g.Clash) : g.adapted.Sound :=
  (h.adapting_adapted hclash).sound

end Intake

end Relayout.Graph
