/-
# What a splice keeps

The frame of the three splices.  Of a tensor that was there, only edges change:
an edge to another operator than the one that is spliced stays, and a new edge
leads to that operator or to the new transpose.  Only the synthesized tensor
gains a producer.
-/
import Relayout.Proofs.Graph.Adaptation

namespace Relayout

/-- A tensor whose edges changed when `op` was spliced to `turn` on one side. -/
structure Rewired (side : Side) (op turn : OpId) (t t' : Tensor) : Prop where
  bare : t'.bare = t.bare
  consumer : ∀ p ∈ t.consumers, (side = .inputs → p ≠ op) → p ∈ t'.consumers
  producer : ∀ p ∈ t.producers, (side = .outputs → p ≠ op) → p ∈ t'.producers
  origin : ∀ p ∈ t'.producers, p ∈ t.producers ∨ p = op ∨ p = turn

namespace Rewired

variable {side : Side} {op turn : OpId} {t t' t'' : Tensor}

theorem refl (side : Side) (op turn : OpId) (t : Tensor) : Rewired side op turn t t :=
  ⟨rfl, fun _ h _ => h, fun _ h _ => h, fun _ h => Or.inl h⟩

theorem trans (h : Rewired side op turn t t') (h' : Rewired side op turn t' t'') :
    Rewired side op turn t t'' where
  bare := h'.bare.trans h.bare
  consumer := fun p hp hne => h'.consumer p (h.consumer p hp hne) hne
  producer := fun p hp hne => h'.producer p (h.producer p hp hne) hne
  origin := fun p hp => (h'.origin p hp).elim (h.origin p) Or.inr

theorem ite {c : Prop} [Decidable c] (h : Rewired side op turn t t') :
    Rewired side op turn t (if c then t' else t) := by
  split
  · exact h
  · exact .refl side op turn t

section Bare

variable (h : Rewired side op turn t t')

include h

theorem name : t'.name = t.name := by simpa using congrArg Tensor.name h.bare

theorem shape : t'.shape = t.shape := by simpa using congrArg Tensor.shape h.bare

theorem layout : t'.layout = t.layout := by simpa using congrArg Tensor.layout h.bare

theorem status : t'.status = t.status := by simpa using congrArg Tensor.status h.bare

theorem elementType : t'.elementType = t.elementType := by
  simpa using congrArg Tensor.elementType h.bare

end Bare

theorem mem_set_idxOf {α : Type} [DecidableEq α] {xs : List α} {a b p : α} (hp : p ∈ xs)
    (hne : p ≠ a) : p ∈ xs.set (xs.idxOf a) b := by
  obtain ⟨i, hi⟩ := List.getElem?_of_mem hp
  refine List.mem_of_getElem? (i := i) ?_
  rw [List.getElem?_set_ne]
  · exact hi
  · intro heq
    obtain ⟨hlt, rfl⟩ := List.getElem?_eq_some_iff.mp hi
    subst heq
    exact hne (List.getElem_idxOf hlt)

theorem swapConsumer (t : Tensor) : Rewired .inputs op turn t (t.swapConsumer op turn) :=
  ⟨rfl, fun _ hp hne => mem_set_idxOf hp (hne rfl), fun _ h _ => h, fun _ h => Or.inl h⟩

theorem swapProducer (t : Tensor) : Rewired .outputs op turn t (t.swapProducer op turn) :=
  ⟨rfl, fun _ h _ => h, fun _ hp hne => mem_set_idxOf hp (hne rfl), fun p hp => by
    rcases List.mem_or_eq_of_mem_set hp with hp | rfl
    · exact Or.inl hp
    · exact Or.inr (Or.inr rfl)⟩

theorem removeConsumer (t : Tensor) : Rewired .inputs op turn t (t.removeConsumer op) :=
  ⟨rfl, fun p hp hne => List.mem_filter.mpr ⟨hp, by simpa using hne rfl⟩, fun _ h _ => h,
    fun _ h => Or.inl h⟩

theorem addConsumer (t : Tensor) (p : OpId) : Rewired side op turn t (t.addConsumer p) :=
  ⟨rfl, fun _ hp _ => mem_attach.mpr (Or.inl hp), fun _ h _ => h, fun _ h => Or.inl h⟩

theorem addProducer (t : Tensor) {p : OpId} (h : p = op ∨ p = turn) :
    Rewired side op turn t (t.addProducer p) :=
  ⟨rfl, fun _ h _ => h, fun _ hp _ => mem_attach.mpr (Or.inl hp), fun q hq => by
    rcases mem_attach.mp hq with hq | rfl
    · exact Or.inl hq
    · exact Or.inr h⟩

end Rewired

namespace Graph

variable {g : Graph} {op : OpId} {operand moved : TensorId} {perm : List Nat} {name : String}
  {j : Nat} {t : Tensor}

/-- A tensor after its neighbour `op` was spliced, with its producers. -/
structure Spliced (g : Graph) (side : Side) (op : OpId) (moved : TensorId) (j : Nat)
    (t t' : Tensor) : Prop where
  rewired : Rewired side op ⟨g.ops.length⟩ t t'
  produced : j = moved.index → t'.producers ≠ []
  kept : j ≠ moved.index → t'.producers.length = t.producers.length

theorem attach_ne_nil (p : OpId) (edges : List OpId) : attach p edges ≠ [] := by
  intro h
  have : p ∈ attach p edges := mem_attach.mpr (Or.inr rfl)
  rw [h] at this
  cases this

theorem getElem?_readingInstead (op : OpId) (operand moved : TensorId)
    (ht : g.tensors[j]? = some t) (turn : OpId) :
    ∃ t', (g.readingInstead op operand moved).tensors[j]? = some t' ∧
      Rewired .inputs op turn t t' ∧ t'.producers = t.producers := by
  refine ⟨_, by rw [readingInstead, List.getElem?_modify, List.getElem?_modify, ht]; rfl, ?_, ?_⟩
  · exact (Rewired.removeConsumer t).ite.trans (Rewired.addConsumer _ op).ite
  · dsimp only
    split <;> split <;> rfl

/-- Where a tensor comes from, if a transpose was shared. -/
theorem before_readingInstead {t' : Tensor}
    (h : (g.readingInstead op operand moved).tensors[j]? = some t') :
    ∃ t, g.tensors[j]? = some t ∧ Rewired .inputs op op t t' ∧ t'.producers = t.producers := by
  have hlt : j < g.tensors.length := by
    simpa [readingInstead] using (List.getElem?_eq_some_iff.mp h).1
  have ht := List.getElem?_eq_getElem hlt
  obtain ⟨t'', ht'', hr, hproducers⟩ := getElem?_readingInstead op operand moved ht op
  rw [h] at ht''
  cases ht''
  exact ⟨_, ht, hr, hproducers⟩

theorem getElem?_transposedBefore (ht : g.tensors[j]? = some t) :
    ∃ t', (g.transposedBefore op operand moved perm name).tensors[j]? = some t' ∧
      g.Spliced .inputs op moved j t t' := by
  refine ⟨_, by rw [transposedBefore, List.getElem?_modify, List.getElem?_modify, ht]; rfl,
    ?_, ?_, ?_⟩
  · exact (Rewired.swapConsumer t).ite.trans
      ((Rewired.addProducer _ (Or.inr rfl)).trans (.addConsumer _ op)).ite
  · rintro rfl
    dsimp only
    rw [if_pos rfl]
    exact attach_ne_nil _ _
  · intro hne
    dsimp only
    rw [if_neg (Ne.symm hne)]
    split <;> rfl

theorem getElem?_transposedAfter (ht : g.tensors[j]? = some t) :
    ∃ t', (g.transposedAfter op operand moved perm name).tensors[j]? = some t' ∧
      g.Spliced .outputs op moved j t t' := by
  refine ⟨_, by rw [transposedAfter, List.getElem?_modify, List.getElem?_modify, ht]; rfl,
    ?_, ?_, ?_⟩
  · exact (Rewired.swapProducer t).ite.trans
      ((Rewired.addProducer _ (Or.inl rfl)).trans (.addConsumer _ _)).ite
  · rintro rfl
    dsimp only
    rw [if_pos rfl]
    exact attach_ne_nil _ _
  · intro hne
    dsimp only
    rw [if_neg (Ne.symm hne)]
    split
    · simp [Tensor.swapProducer]
    · rfl

/-! ## Names -/

theorem names_modify {f : Tensor → Tensor} (h : ∀ t, (f t).name = t.name) (ts : List Tensor)
    (i : Nat) : (ts.modify i f).map Tensor.name = ts.map Tensor.name := map_modify_of_eq h ts i

theorem names_completing (g : Graph) (id : TensorId) (shape : List Nat) (l : Layout) :
    (g.completing id shape l).tensors.map Tensor.name = g.tensors.map Tensor.name :=
  names_modify (f := Tensor.completed shape l) (fun _ => rfl) _ _

theorem names_inputSpliced (g : Graph) (op : OpId) (operand : TensorId) (t : Tensor) (l : Layout) :
    (g.inputSpliced op operand t l).tensors.map Tensor.name =
      (g.withDerived t (synthesizedName "Transposed" t.name)).2.tensors.map Tensor.name := by
  unfold inputSpliced transposedBefore
  dsimp only
  rw [names_modify, names_modify, names_completing] <;> exact fun _ => rfl

theorem names_outputPreserved (g : Graph) (op : OpId) (operand : TensorId) (t : Tensor)
    (l : Layout) :
    (g.outputPreserved op operand t l).tensors.map Tensor.name =
      (g.withDerived t (synthesizedName "ToTranspose" t.name)).2.tensors.map Tensor.name := by
  unfold outputPreserved transposedAfter
  dsimp only
  rw [names_modify, names_modify, names_completing] <;> exact fun _ => rfl

theorem names_readingInstead (g : Graph) (op : OpId) (operand moved : TensorId) :
    (g.readingInstead op operand moved).tensors.map Tensor.name = g.tensors.map Tensor.name := by
  unfold readingInstead
  rw [names_modify, names_modify] <;> exact fun _ => rfl

theorem Named.readingInstead (h : g.Named) (op : OpId) (operand moved : TensorId) :
    (g.readingInstead op operand moved).Named :=
  h.of_names (names_readingInstead g op operand moved) rfl

/-! ## Whole splices -/

/-- A graph whose operator `op` was spliced on one side: the tensor `name`,
derived from `t` if it is new, was completed, and otherwise only edges
changed. -/
structure SpliceStep (g : Graph) (side : Side) (op : OpId) (t : Tensor) (name : String)
    (shape : List Nat) (l : Layout) (g' : Graph) : Prop where
  hit : ∀ {j u}, g.tensors[j]? = some u → g.lookup? name = some ⟨j⟩ →
    ∃ u', g'.tensors[j]? = some u' ∧
      Rewired side op ⟨g.ops.length⟩ (u.completed shape l) u' ∧ u'.producers ≠ []
  other : ∀ {j u}, g.tensors[j]? = some u → g.lookup? name ≠ some ⟨j⟩ →
    ∃ u', g'.tensors[j]? = some u' ∧ Rewired side op ⟨g.ops.length⟩ u u' ∧
      u'.producers.length = u.producers.length
  new : ∀ {j u'}, g.tensors.length ≤ j → g'.tensors[j]? = some u' →
    g.lookup? name = none ∧ j = g.tensors.length ∧
      Rewired side op ⟨g.ops.length⟩ ((t.derived name ⟨j⟩).completed shape l) u' ∧
      u'.producers ≠ []
  names : g'.tensors.map Tensor.name = (g.withDerived t name).2.tensors.map Tensor.name
  byName : g'.byName = (g.withDerived t name).2.byName

/-- A splice keeps the table of names and the arena together. -/
theorem SpliceStep.named {g' : Graph} {side : Side} {shape : List Nat} {l : Layout}
    (h : g.SpliceStep side op t name shape l g') (hg : g.Named) : g'.Named :=
  (named_withDerived hg t name).of_names h.names h.byName

/-- Where a tensor of a spliced graph comes from: only its edges changed, or it
was completed, being there under the name or derived. -/
theorem SpliceStep.origin {g' : Graph} {side : Side} {shape : List Nat} {l : Layout}
    (h : g.SpliceStep side op t name shape l g') {j : Nat} {u' : Tensor}
    (hj : g'.tensors[j]? = some u') :
    (∃ u, g.tensors[j]? = some u ∧ Rewired side op ⟨g.ops.length⟩ u u' ∧
      u'.producers.length = u.producers.length) ∨
    ∃ u, (g.tensors[j]? = some u ∧ g.lookup? name = some ⟨j⟩ ∨
        g.lookup? name = none ∧ j = g.tensors.length ∧ u = t.derived name ⟨j⟩) ∧
      Rewired side op ⟨g.ops.length⟩ (u.completed shape l) u' ∧ u'.producers ≠ [] := by
  by_cases hlt : j < g.tensors.length
  · have hu := List.getElem?_eq_getElem hlt
    by_cases hlookup : g.lookup? name = some ⟨j⟩
    · obtain ⟨u'', hu'', hr, hproducers⟩ := h.hit hu hlookup
      obtain rfl := Option.some.inj (hj.symm.trans hu'')
      exact Or.inr ⟨_, Or.inl ⟨hu, hlookup⟩, hr, hproducers⟩
    · obtain ⟨u'', hu'', hr, hlength⟩ := h.other hu hlookup
      obtain rfl := Option.some.inj (hj.symm.trans hu'')
      exact Or.inl ⟨_, hu, hr, hlength⟩
  · obtain ⟨hnone, hlast, hr, hproducers⟩ := h.new (Nat.not_lt.mp hlt) hj
    exact Or.inr ⟨_, Or.inr ⟨hnone, hlast, rfl⟩, hr, hproducers⟩

theorem spliceStep_of_spliced {g' : Graph} {side : Side} {shape : List Nat} {l : Layout}
    (hspliced : ∀ {j u},
      ((g.withDerived t name).2.completing (g.withDerived t name).1 shape l).tensors[j]? = some u →
      ∃ u', g'.tensors[j]? = some u' ∧
        ((g.withDerived t name).2.completing (g.withDerived t name).1 shape l).Spliced side op
          (g.withDerived t name).1 j u u')
    (hnames : g'.tensors.map Tensor.name = (g.withDerived t name).2.tensors.map Tensor.name)
    (hby : g'.byName = (g.withDerived t name).2.byName) :
    g.SpliceStep side op t name shape l g' := by
  have hops : ((g.withDerived t name).2.completing (g.withDerived t name).1 shape l).ops = g.ops :=
    withDerived_ops t name
  have hlength : g'.tensors.length = (g.withDerived t name).2.tensors.length := by
    simpa using congrArg List.length hnames
  refine ⟨?_, ?_, ?_, hnames, hby⟩
  · intro j u hu hj
    have hlt := (List.getElem?_eq_some_iff.mp hu).1
    have hcompleted := getElem?_completing_of_lt hu t name shape l
    rw [if_pos hj] at hcompleted
    obtain ⟨u', hu', hs⟩ := hspliced hcompleted
    exact ⟨u', hu', hops ▸ hs.rewired, hs.produced ((withDerived_index_iff t name hlt).mpr hj).symm⟩
  · intro j u hu hj
    have hlt := (List.getElem?_eq_some_iff.mp hu).1
    have hcompleted := getElem?_completing_of_lt hu t name shape l
    rw [if_neg hj] at hcompleted
    obtain ⟨u', hu', hs⟩ := hspliced hcompleted
    exact ⟨u', hu', hops ▸ hs.rewired,
      hs.kept fun heq => hj ((withDerived_index_iff t name hlt).mp heq.symm)⟩
  · intro j u' hj hu'
    have hlt : j < ((g.withDerived t name).2.completing (g.withDerived t name).1 shape
        l).tensors.length := by
      rw [completing, List.length_modify, ← hlength]
      exact (List.getElem?_eq_some_iff.mp hu').1
    have hcompleted := List.getElem?_eq_getElem hlt
    obtain ⟨hlookup, hjl, hindex, hu⟩ := getElem?_completing_of_le hj hcompleted
    obtain ⟨u'', hu'', hs⟩ := hspliced hcompleted
    rw [hu'] at hu''
    cases hu''
    rw [hu] at hs
    exact ⟨hlookup, hjl, hops ▸ hs.rewired, hs.produced hindex.symm⟩

theorem inputSpliced_step (g : Graph) (reader : OpId) (operand : TensorId) (t : Tensor)
    (l : Layout) :
    g.SpliceStep .inputs reader t (synthesizedName "Transposed" t.name)
      (permutedDims l.inverse.perm t.shape) l.inverse (g.inputSpliced reader operand t l) :=
  spliceStep_of_spliced (fun hu => getElem?_transposedBefore hu) (names_inputSpliced ..) rfl

theorem outputPreserved_step (g : Graph) (writer : OpId) (operand : TensorId) (t : Tensor)
    (l : Layout) :
    g.SpliceStep .outputs writer t (synthesizedName "ToTranspose" t.name)
      (permutedDims l.inverse.perm t.shape) l.inverse (g.outputPreserved writer operand t l) :=
  spliceStep_of_spliced (fun hu => getElem?_transposedAfter hu) (names_outputPreserved ..) rfl

end Graph

end Relayout
