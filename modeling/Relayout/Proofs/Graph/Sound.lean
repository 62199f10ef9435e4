/-
# Sound graphs

What emission relies on: every tensor and every operator has been read, nothing
dangles, and a splice comes after the operator it belongs to.  A graph that was
read is sound, and every splice keeps it sound.
-/
import Relayout.Proofs.Graph.Intake
import Relayout.Proofs.Graph.Rewiring

namespace Relayout.Graph

variable {g g' : Graph} {op : OpId} {operand : TensorId} {o : Operator} {t : Tensor} {l : Layout}

/-- An operator whose operands and splices are there. -/
structure SoundOp (g : Graph) (i : Nat) (o : Operator) : Prop where
  parsed : o.status.isParsed = true
  inputs : ∀ id ∈ o.inputs, id.index < g.tensors.length
  outputs : ∀ id ∈ o.outputs, id.index < g.tensors.length
  pre : ∀ p ∈ o.pre, i < p.index ∧ p.index < g.ops.length
  post : ∀ p ∈ o.post, i < p.index ∧ p.index < g.ops.length

/-- An operator stays sound while the graph grows. -/
theorem SoundOp.grow {i : Nat} (h : g.SoundOp i o)
    (htensors : g.tensors.length ≤ g'.tensors.length) (hops : g.ops.length ≤ g'.ops.length) :
    g'.SoundOp i o where
  parsed := h.parsed
  inputs := fun id hid => Nat.lt_of_lt_of_le (h.inputs id hid) htensors
  outputs := fun id hid => Nat.lt_of_lt_of_le (h.outputs id hid) htensors
  pre := fun p hp => ⟨(h.pre p hp).1, Nat.lt_of_lt_of_le (h.pre p hp).2 hops⟩
  post := fun p hp => ⟨(h.post p hp).1, Nat.lt_of_lt_of_le (h.post p hp).2 hops⟩

structure Sound (g : Graph) : Prop where
  parsed : ∀ t ∈ g.tensors, t.status.isParsed = true
  typed : ∀ t ∈ g.tensors, t.elementType.isSome = true
  producers : ∀ t ∈ g.tensors, ∀ p ∈ t.producers, p.index < g.ops.length
  ops : ∀ {i o}, g.ops[i]? = some o → g.SoundOp i o
  order : ∀ id ∈ g.order, id.index < g.ops.length
  inputs : ∀ id ∈ g.inputs, id.index < g.tensors.length
  outputs : ∀ id ∈ g.outputs, id.index < g.tensors.length

theorem lt_of_nameOf? {ids : List TensorId} {names : List String}
    (h : ids.map g.nameOf? = names.map some) {id : TensorId} (hid : id ∈ ids) :
    id.index < g.tensors.length := by
  have hmem : g.nameOf? id ∈ names.map some := h ▸ List.mem_map_of_mem hid
  obtain ⟨name, -, hname⟩ := List.mem_map.mp hmem
  obtain ⟨t, ht, -⟩ := Option.map_eq_some_iff.mp hname.symm
  exact (List.getElem?_eq_some_iff.mp ht).1

theorem Intake.sound {s : Scope} {layouts : SortedMap ExplicitLayout} (h : Intake s layouts g) :
    g.Sound where
  parsed := fun t ht => by
    have := h.taken.registry.status (t := t.bare) (List.mem_map_of_mem ht)
    rw [Tensor.bare_status] at this
    rw [this]
    rfl
  typed := fun t ht =>
    h.taken.registry.elementType_isSome (t := t.bare) (List.mem_map_of_mem ht)
  producers := fun t ht p hp => by
    obtain ⟨i, hi⟩ := List.getElem?_of_mem ht
    exact h.taken.wired.lt_of_mem_producers hi hp
  ops := fun {i o} ho => by
    obtain ⟨-, c, -, -, hstands⟩ := h.stands_at ho
    exact ⟨by rw [hstands.status]; rfl, fun id => lt_of_nameOf? hstands.inputs,
      fun id => lt_of_nameOf? hstands.map_outputs,
      by rw [hstands.pre]; simp, by rw [hstands.post]; simp⟩
  order := fun id hid => by
    rw [h.taken.order] at hid
    obtain ⟨i, hi, rfl⟩ := List.mem_map.mp hid
    rw [h.taken.length]
    exact List.mem_range.mp hi
  inputs := fun _ => lt_of_nameOf? h.inputs
  outputs := fun _ => lt_of_nameOf? h.outputs

theorem Sound.moved (h : g.Sound) : g.moved.Sound where
  parsed := by
    intro t ht
    obtain ⟨u, hu, rfl⟩ := List.mem_map.mp ht
    cases hl : u.layout with
    | none => rw [Tensor.moved_of_layout_none hl]; exact h.parsed u hu
    | some l => rw [Tensor.moved_status hl]; rfl
  typed := by
    intro t ht
    obtain ⟨u, hu, rfl⟩ := List.mem_map.mp ht
    rw [Tensor.moved_elementType]
    exact h.typed u hu
  producers := by
    intro t ht p hp
    obtain ⟨u, hu, rfl⟩ := List.mem_map.mp ht
    rw [Tensor.moved_producers] at hp
    exact h.producers u hu p hp
  ops := fun {i o} ho =>
    (h.ops ho).grow (Nat.le_of_eq (List.length_map _).symm) (Nat.le_refl _)
  order := h.order
  inputs := fun id hid => by simpa [Graph.moved] using h.inputs id hid
  outputs := fun id hid => by simpa [Graph.moved] using h.outputs id hid

/-! ## Splices -/

/-- A tensor of a spliced graph came from a tensor of the graph, completed or
not, or was derived. -/
theorem SpliceStep.exists_rewired {side : Side} {name : String} {shape : List Nat}
    (h : g.SpliceStep side op t name shape l g') {u' : Tensor} (hu' : u' ∈ g'.tensors) :
    ∃ u, (u ∈ g.tensors ∧ Rewired side op ⟨g.ops.length⟩ u u') ∨
      (u ∈ g.tensors ∨ ∃ id, u = t.derived name id) ∧
        Rewired side op ⟨g.ops.length⟩ (u.completed shape l) u' := by
  obtain ⟨j, hj⟩ := List.getElem?_of_mem hu'
  obtain ⟨u, hu, hr, -⟩ | ⟨u, ⟨hu, -⟩ | ⟨-, -, hu⟩, hr, -⟩ := h.origin hj
  · exact ⟨u, Or.inl ⟨List.mem_of_getElem? hu, hr⟩⟩
  · exact ⟨u, Or.inr ⟨Or.inl (List.mem_of_getElem? hu), hr⟩⟩
  · exact ⟨u, Or.inr ⟨Or.inr ⟨_, hu⟩, hr⟩⟩

/-- The producers of a spliced graph are its operators. -/
theorem SpliceStep.lt_of_mem_producers {side : Side} {name : String} {shape : List Nat}
    (hstep : g.SpliceStep side op t name shape l g')
    (hproducers : ∀ u ∈ g.tensors, ∀ p ∈ u.producers, p.index < g.ops.length)
    (hop : op.index < g.ops.length) {u' : Tensor} (hu' : u' ∈ g'.tensors) {p : OpId}
    (hp : p ∈ u'.producers) : p.index < g.ops.length + 1 := by
  obtain ⟨u, hu⟩ := hstep.exists_rewired hu'
  have hcases : p ∈ u.producers ∧ (u ∈ g.tensors ∨ ∃ id, u = t.derived name id) ∨ p = op ∨
      p = ⟨g.ops.length⟩ := by
    obtain ⟨hu, hr⟩ | ⟨hu, hr⟩ := hu
    · exact (hr.origin p hp).imp (fun h => ⟨h, Or.inl hu⟩) id
    · exact (hr.origin p hp).imp (fun h => ⟨h, hu⟩) id
  obtain ⟨hpu, hu | ⟨_, rfl⟩⟩ | rfl | rfl := hcases
  · exact Nat.lt_succ_of_lt (hproducers u hu p hpu)
  · cases hpu
  · exact Nat.lt_succ_of_lt hop
  · exact Nat.lt_succ_self _

/-- A splice adds one operator behind all others, and it is sound. -/
theorem Sound.splice {side : Side} {name : String} {shape : List Nat}
    {f : Operator → Operator} {turn : Operator} (h : g.Sound)
    (hstep : g.SpliceStep side op t name shape l g')
    (ht : t.elementType.isSome = true) (hop : op.index < g.ops.length)
    (hlength : g.tensors.length ≤ g'.tensors.length)
    (hops : g'.ops = g.ops.modify op.index f ++ [turn])
    (hf : ∀ o, g.ops[op.index]? = some o → g'.SoundOp op.index o → g'.SoundOp op.index (f o))
    (hturn : g'.SoundOp g.ops.length turn)
    (horder : g'.order = g.order) (hinputs : g'.inputs = g.inputs)
    (houtputs : g'.outputs = g.outputs) : g'.Sound where
  parsed := by
    intro u' hu'
    obtain ⟨u, ⟨hu, hr⟩ | ⟨-, hr⟩⟩ := hstep.exists_rewired hu'
    · rw [hr.status]
      exact h.parsed u hu
    · rw [hr.status]
      rfl
  typed := by
    intro u' hu'
    obtain ⟨u, ⟨hu, hr⟩ | ⟨hu | ⟨_, rfl⟩, hr⟩⟩ := hstep.exists_rewired hu'
    · rw [hr.elementType]
      exact h.typed u hu
    · rw [hr.elementType]
      exact h.typed u hu
    · rw [hr.elementType]
      exact ht
  producers := fun u' hu' p hp => by
    rw [hops, List.length_append, List.length_modify]
    exact hstep.lt_of_mem_producers h.producers hop hu' hp
  ops := by
    intro i o ho
    have hgrow : ∀ {i o}, g.ops[i]? = some o → g'.SoundOp i o := fun ho =>
      (h.ops ho).grow hlength (by rw [hops]; simp)
    rw [hops] at ho
    obtain ⟨o', ho', rfl⟩ | ⟨rfl, rfl⟩ := getElem?_modify_concat_cases ho
    · by_cases hi : op.index = i
      · subst hi
        rw [if_pos rfl]
        exact hf o' ho' (hgrow ho')
      · rw [if_neg hi]
        exact hgrow ho'
    · exact hturn
  order := by
    intro id hid
    rw [hops]
    have := h.order id (horder ▸ hid)
    simp
    omega
  inputs := fun id hid => by
    have := h.inputs id (hinputs ▸ hid)
    omega
  outputs := fun id hid => by
    have := h.outputs id (houtputs ▸ hid)
    omega

theorem length_withDerived (g : Graph) (t : Tensor) (name : String) :
    g.tensors.length ≤ (g.withDerived t name).2.tensors.length := by
  unfold withDerived
  split
  · exact Nat.le_refl _
  · simp

theorem withDerived_lt (hg : g.Named) (t : Tensor) (name : String) :
    (g.withDerived t name).1.index < (g.withDerived t name).2.tensors.length := by
  obtain ⟨u, hu, -⟩ := getElem?_withDerived hg t name
  exact (List.getElem?_eq_some_iff.mp hu).1

theorem SoundOp.withInput {i : Nat} (h : g.SoundOp i o) {id : TensorId}
    (hid : id.index < g.tensors.length) : g.SoundOp i (o.withInput id) :=
  ⟨h.parsed, fun id' hid' => (List.mem_or_eq_of_mem_set hid').elim (h.inputs id') (· ▸ hid),
    h.outputs, h.pre, h.post⟩

theorem SoundOp.withOutput {i : Nat} (h : g.SoundOp i o) {id : TensorId}
    (hid : id.index < g.tensors.length) : g.SoundOp i (o.withOutput id) :=
  ⟨h.parsed, h.inputs,
    fun id' hid' => (List.mem_or_eq_of_mem_set hid').elim (h.outputs id') (· ▸ hid), h.pre, h.post⟩

theorem SoundOp.addPre {i : Nat} (h : g.SoundOp i o) {p : OpId}
    (hp : i < p.index ∧ p.index < g.ops.length) : g.SoundOp i (o.addPre p) :=
  ⟨h.parsed, h.inputs, h.outputs, fun q hq => (List.mem_append.mp hq).elim (h.pre q) fun hq =>
    (List.mem_singleton.mp hq) ▸ hp, h.post⟩

theorem SoundOp.addPost {i : Nat} (h : g.SoundOp i o) {p : OpId}
    (hp : i < p.index ∧ p.index < g.ops.length) : g.SoundOp i (o.addPost p) :=
  ⟨h.parsed, h.inputs, h.outputs, h.pre, fun q hq => (List.mem_append.mp hq).elim (h.post q)
    fun hq => (List.mem_singleton.mp hq) ▸ hp⟩

theorem soundOp_turn {i : Nat} {perm : List Nat} {name : String} {source target : TensorId}
    (hsource : source.index < g.tensors.length) (htarget : target.index < g.tensors.length) :
    g.SoundOp i (.turn perm name source target) where
  parsed := rfl
  inputs := fun _ hid => List.mem_singleton.mp hid ▸ hsource
  outputs := fun _ hid => List.mem_singleton.mp hid ▸ htarget
  pre := fun _ hp => by cases hp
  post := fun _ hp => by cases hp

theorem inputSpliced_ops (g : Graph) (op : OpId) (operand : TensorId) (t : Tensor) (l : Layout) :
    (g.inputSpliced op operand t l).ops = (g.ops.modify op.index fun o =>
      (o.withInput (g.withDerived t (synthesizedName "Transposed" t.name)).1).addPre
        ⟨g.ops.length⟩) ++ [.turn l.inverse.perm (synthesizedName "Transposed" t.name) operand
          (g.withDerived t (synthesizedName "Transposed" t.name)).1] := by
  simp [Graph.inputSpliced, transposedBefore, completing, withDerived_ops]

theorem outputPreserved_ops (g : Graph) (op : OpId) (operand : TensorId) (t : Tensor)
    (l : Layout) :
    (g.outputPreserved op operand t l).ops = (g.ops.modify op.index fun o =>
      (o.withOutput (g.withDerived t (synthesizedName "ToTranspose" t.name)).1).addPost
        ⟨g.ops.length⟩) ++ [.turn l.perm (synthesizedName "Transpose" t.name)
          (g.withDerived t (synthesizedName "ToTranspose" t.name)).1 operand] := by
  simp [Graph.outputPreserved, transposedAfter, completing, withDerived_ops]

/-- The operator whose input is spliced, and the transpose in front of it. -/
theorem ops_inputSpliced (ho : g.ops[op.index]? = some o) (operand : TensorId) (t : Tensor)
    (l : Layout) :
    (g.inputSpliced op operand t l).ops[op.index]? = some ((o.withInput
        (g.withDerived t (synthesizedName "Transposed" t.name)).1).addPre ⟨g.ops.length⟩) ∧
      (g.inputSpliced op operand t l).ops[g.ops.length]? =
        some (.turn l.inverse.perm (synthesizedName "Transposed" t.name) operand
          (g.withDerived t (synthesizedName "Transposed" t.name)).1) := by
  rw [inputSpliced_ops]
  exact getElem?_modify_concat ho _ _

/-- The operator whose output is spliced, and the transpose behind it. -/
theorem ops_outputPreserved (ho : g.ops[op.index]? = some o) (operand : TensorId) (t : Tensor)
    (l : Layout) :
    (g.outputPreserved op operand t l).ops[op.index]? = some ((o.withOutput
        (g.withDerived t (synthesizedName "ToTranspose" t.name)).1).addPost ⟨g.ops.length⟩) ∧
      (g.outputPreserved op operand t l).ops[g.ops.length]? =
        some (.turn l.perm (synthesizedName "Transpose" t.name)
          (g.withDerived t (synthesizedName "ToTranspose" t.name)).1 operand) := by
  rw [outputPreserved_ops]
  exact getElem?_modify_concat ho _ _

theorem ops_readingInstead (ho : g.ops[op.index]? = some o) (operand moved : TensorId) :
    (g.readingInstead op operand moved).ops[op.index]? = some (o.withInput moved) := by
  rw [Graph.readingInstead, List.getElem?_modify_eq, ho]
  rfl

theorem Sound.inputSpliced (h : g.Sound) (hg : g.Named) (hop : op.index < g.ops.length)
    (ht : g.tensors[operand.index]? = some t) (l : Layout) :
    (g.inputSpliced op operand t l).Sound := by
  have hlen : (g.inputSpliced op operand t l).tensors.length =
      (g.withDerived t (synthesizedName "Transposed" t.name)).2.tensors.length := by
    simp [Graph.inputSpliced, transposedBefore, completing]
  have hops := inputSpliced_ops g op operand t l
  have hgrow := length_withDerived g t (synthesizedName "Transposed" t.name)
  have hmoved := withDerived_lt hg t (synthesizedName "Transposed" t.name)
  rw [← hlen] at hgrow hmoved
  refine h.splice (inputSpliced_step g op operand t l) (h.typed t (List.mem_of_getElem? ht)) hop
    hgrow hops (fun o _ ho => (ho.withInput hmoved).addPre ⟨hop, by rw [hops]; simp⟩)
    (soundOp_turn (by have := (List.getElem?_eq_some_iff.mp ht).1; omega) hmoved) ?_ ?_ ?_ <;>
  · unfold Graph.inputSpliced withDerived
    dsimp only [transposedBefore, completing]
    split <;> rfl

theorem Sound.outputPreserved (h : g.Sound) (hg : g.Named) (hop : op.index < g.ops.length)
    (ht : g.tensors[operand.index]? = some t) (l : Layout) :
    (g.outputPreserved op operand t l).Sound := by
  have hlen : (g.outputPreserved op operand t l).tensors.length =
      (g.withDerived t (synthesizedName "ToTranspose" t.name)).2.tensors.length := by
    simp [Graph.outputPreserved, transposedAfter, completing]
  have hops := outputPreserved_ops g op operand t l
  have hgrow := length_withDerived g t (synthesizedName "ToTranspose" t.name)
  have hmoved := withDerived_lt hg t (synthesizedName "ToTranspose" t.name)
  rw [← hlen] at hgrow hmoved
  refine h.splice (outputPreserved_step g op operand t l) (h.typed t (List.mem_of_getElem? ht)) hop
    hgrow hops (fun o _ ho => (ho.withOutput hmoved).addPost ⟨hop, by rw [hops]; simp⟩)
    (soundOp_turn hmoved (by have := (List.getElem?_eq_some_iff.mp ht).1; omega)) ?_ ?_ ?_ <;>
  · unfold Graph.outputPreserved withDerived
    dsimp only [transposedAfter, completing]
    split <;> rfl

theorem Sound.readingInstead (h : g.Sound) {existing : TensorId}
    (hexisting : existing.index < g.tensors.length) :
    (g.readingInstead op operand existing).Sound := by
  have hlen : (g.readingInstead op operand existing).tensors.length = g.tensors.length := by
    simp [Graph.readingInstead]
  have hoplen : (g.readingInstead op operand existing).ops.length = g.ops.length := by
    simp [Graph.readingInstead]
  have horigin : ∀ u' ∈ (g.readingInstead op operand existing).tensors, ∃ u ∈ g.tensors,
      Rewired .inputs op op u u' ∧ u'.producers = u.producers := by
    intro u' hu'
    obtain ⟨j, hj⟩ := List.getElem?_of_mem hu'
    obtain ⟨u, hu, hr, hp⟩ := before_readingInstead hj
    exact ⟨u, List.mem_of_getElem? hu, hr, hp⟩
  refine ⟨?_, ?_, ?_, ?_, ?_, ?_, ?_⟩
  · intro u' hu'
    obtain ⟨u, hu, hr, -⟩ := horigin u' hu'
    rw [hr.status]
    exact h.parsed u hu
  · intro u' hu'
    obtain ⟨u, hu, hr, -⟩ := horigin u' hu'
    rw [hr.elementType]
    exact h.typed u hu
  · intro u' hu' p hp
    obtain ⟨u, hu, -, hproducers⟩ := horigin u' hu'
    rw [hoplen]
    exact h.producers u hu p (hproducers ▸ hp)
  · intro i o ho
    have hsame : ∀ {o}, g.SoundOp i o → (g.readingInstead op operand existing).SoundOp i o :=
      fun ho => ho.grow (Nat.le_of_eq hlen.symm) (Nat.le_of_eq hoplen.symm)
    rw [Graph.readingInstead, List.getElem?_modify] at ho
    obtain ⟨o', ho', rfl⟩ := Option.map_eq_some_iff.mp ho
    by_cases hi : op.index = i
    · simpa [hi] using (hsame (h.ops ho')).withInput (hlen ▸ hexisting)
    · simpa [hi] using hsame (h.ops ho')
  · exact fun id hid => hoplen ▸ h.order id hid
  · exact fun id hid => hlen ▸ h.inputs id hid
  · exact fun id hid => hlen ▸ h.outputs id hid

end Relayout.Graph
