/-
# The adapted graph, block by block

Where the names that splices make up are vacant, the blocks of a graph that was
read are the lowerings of its calls, in source order.  The invariant is
`Arranged`: blocks before operator `n` are lowered, operators from `n` on are as
they were read.
-/
import Relayout.Proofs.Graph.Blocks

namespace Relayout.Graph

variable {g k k' : Graph} {n : Nat} {o : Operator} {calls : List Call}
  {tag : String → Option Layout} {x y : Tensor}

/-- A graph that was read: its operators stand for calls, and a tag says the
layout of every tensor. -/
structure Readable (g : Graph) (calls : List Call) (tag : String → Option Layout) : Prop where
  named : g.Named
  wired : g.Wired
  tagged : ∀ t ∈ g.tensors, tag t.name = t.layout
  length : calls.length = g.ops.length
  stands : ∀ {i c}, calls[i]? = some c → ∃ o, g.ops[i]? = some o ∧ g.Stands i c o
  order : g.order = (List.range g.ops.length).map OpId.mk

namespace Readable

variable (h : g.Readable calls tag)

include h

theorem call_of_op {i : Nat} (ho : g.ops[i]? = some o) :
    ∃ c, calls[i]? = some c ∧ g.Stands i c o := by
  have hlt : i < calls.length := by
    rw [h.length]
    exact (List.getElem?_eq_some_iff.mp ho).1
  obtain ⟨o', ho', hstands⟩ := h.stands (List.getElem?_eq_getElem hlt)
  rw [ho] at ho'
  cases ho'
  exact ⟨_, List.getElem?_eq_getElem hlt, hstands⟩

/-- The reshape behind a call. -/
theorem reshapes_of_call {i : Nat} {a b : String} {shape : Option String}
    (hc : calls[i]? = some (.reshape a shape b)) :
    ∃ o input output x y, g.ops[i]? = some o ∧ g.Stands i (.reshape a shape b) o ∧
      o.inputs[0]? = some input ∧ g.tensors[input.index]? = some x ∧ x.name = a ∧
      o.outputs[0]? = some output ∧ g.tensors[output.index]? = some y ∧ y.name = b ∧
      g.Reshapes i x y := by
  obtain ⟨o, ho, hstands⟩ := h.stands hc
  obtain ⟨input, rest, hins, hin, -⟩ := List.map_eq_cons_iff.mp hstands.inputs
  obtain ⟨output, rest', houts, hout, -⟩ := List.map_eq_cons_iff.mp hstands.outputs
  obtain ⟨x, hx, hxn⟩ := Option.map_eq_some_iff.mp hin
  obtain ⟨y, hy, hyn⟩ := Option.map_eq_some_iff.mp hout
  have h0 : o.inputs[0]? = some input := by rw [hins]; rfl
  have h0' : o.outputs[0]? = some output := by rw [houts]; rfl
  exact ⟨o, input, output, x, y, ho, hstands, h0, hx, hxn, h0', hy, hyn,
    ⟨o, input, output, ho, hstands.kind, h0, hx, h0', hy⟩⟩

/-- The call behind a reshape. -/
theorem call_of_reshapes {i : Nat} (hr : g.Reshapes i x y) :
    ∃ shape, calls[i]? = some (.reshape x.name shape y.name) := by
  have hr' := hr
  obtain ⟨o, input, output, ho, hkind, hin, hx, hout, hy⟩ := hr'
  obtain ⟨c, hc, hstands⟩ := h.call_of_op ho
  cases c with
  | conv a w b z =>
      obtain ⟨c, hc⟩ := hstands.kind
      rw [hkind] at hc
      cases hc
  | reshape a shape b =>
      obtain ⟨-, -, -, x', y', -, -, -, -, hxn, -, -, hyn, hr'⟩ := h.reshapes_of_call hc
      obtain ⟨rfl, rfl⟩ := hr.unique hr'
      exact ⟨shape, by rw [hxn, hyn]; exact hc⟩

theorem mem_turnedBefore (hx : x ∈ g.tensors) :
    x.name ∈ Call.turnedBefore calls n ↔ ∃ i y, i < n ∧ g.Reshapes i x y := by
  constructor
  · intro hmem
    obtain ⟨i, shape, b, hlt, hi⟩ := Call.mem_turnedBefore.mp hmem
    obtain ⟨-, -, -, x', y', -, -, -, -, hxn, -, -, -, hr⟩ := h.reshapes_of_call hi
    obtain rfl := h.named.eq_of_mem hr.mem_left hx hxn
    exact ⟨i, y', hlt, hr⟩
  · rintro ⟨i, y, hi, hr⟩
    obtain ⟨shape, hc⟩ := h.call_of_reshapes hr
    exact Call.mem_turnedBefore.mpr ⟨i, shape, y.name, hi, hc⟩

end Readable

/-- The graph whose operators before `n` stand in lowered blocks. -/
structure Arranged (g : Graph) (calls : List Call) (tag : String → Option Layout) (n : Nat)
    (k : Graph) : Prop where
  keeps : g.Keeps k
  waiting : ∀ {i}, n ≤ i → i < g.ops.length → k.ops[i]? = g.ops[i]?
  done : ∀ {i c}, i < n → calls[i]? = some c → ∃ o o', g.ops[i]? = some o ∧
    k.ops[i]? = some o' ∧ k.Leaves g.ops.length o' ∧
    k.blockOf o' = c.block tag (Call.turnedBefore calls i) (g.nodeOf o)
  length : g.ops.length ≤ k.ops.length
  order : k.order = g.order
  inputs : k.inputs = g.inputs
  outputs : k.outputs = g.outputs

theorem arranged_moved (g : Graph) (calls : List Call) (tag : String → Option Layout) :
    Arranged g calls tag 0 g.moved where
  keeps := keeps_of_names (names_moved g)
  waiting := fun _ _ => rfl
  done := fun hi => absurd hi (Nat.not_lt_zero _)
  length := Nat.le_refl _
  order := rfl
  inputs := rfl
  outputs := rfl

/-- The boundary and the order of a graph, which adapting keeps. -/
theorem inputAdapted_frame (k : Graph) (id : OpId) (input : TensorId) :
    (k.inputAdapted id input).order = k.order ∧ (k.inputAdapted id input).inputs = k.inputs ∧
      (k.inputAdapted id input).outputs = k.outputs ∧
      k.ops.length ≤ (k.inputAdapted id input).ops.length := by
  unfold inputAdapted
  split
  · unfold inputPreserved
    split
    · exact ⟨rfl, rfl, rfl, by simp [readingInstead]⟩
    · rw [inputSpliced_ops]
      unfold inputSpliced withDerived
      dsimp only [transposedBefore, completing]
      split <;> exact ⟨rfl, rfl, rfl, by simp⟩
  · exact ⟨rfl, rfl, rfl, Nat.le_refl _⟩

theorem outputAdapted_frame (k : Graph) (id : OpId) (output : TensorId) :
    (k.outputAdapted id output).order = k.order ∧ (k.outputAdapted id output).inputs = k.inputs ∧
      (k.outputAdapted id output).outputs = k.outputs ∧
      k.ops.length ≤ (k.outputAdapted id output).ops.length := by
  unfold outputAdapted
  split
  · rw [outputPreserved_ops]
    unfold outputPreserved withDerived
    dsimp only [transposedAfter, completing]
    split <;> exact ⟨rfl, rfl, rfl, by simp⟩
  · exact ⟨rfl, rfl, rfl, Nat.le_refl _⟩

theorem extends_marked (n : Nat) (k : Graph) : Extends n k (k.marked n) :=
  .of_modify [] (keeps_of_names rfl) (by rw [List.append_nil]; rfl)

/-- Adapting an operator keeps the blocks before it. -/
theorem Arranged.step (h : Arranged g calls tag n k) (hk : k.Sound) (hE : Extends n k k')
    (hn : n < g.ops.length) (hlength : k.ops.length ≤ k'.ops.length)
    (hframe : k'.order = k.order ∧ k'.inputs = k.inputs ∧ k'.outputs = k.outputs)
    (hdone : ∀ {c}, calls[n]? = some c → ∃ o o', g.ops[n]? = some o ∧ k'.ops[n]? = some o' ∧
      k'.Leaves g.ops.length o' ∧
      k'.blockOf o' = c.block tag (Call.turnedBefore calls n) (g.nodeOf o)) :
    Arranged g calls tag (n + 1) k' where
  keeps := h.keeps.trans hE.keeps
  waiting := fun {i} hi hlt => by
    have hq := List.getElem?_eq_getElem (Nat.lt_of_lt_of_le hlt h.length)
    rw [hE.ops (by omega) hq, ← hq, h.waiting (Nat.le_of_succ_le hi) hlt]
  done := fun {i c} hi hc => by
    rcases Nat.lt_succ_iff_lt_or_eq.mp hi with hi | rfl
    · obtain ⟨o, o', ho, ho', hleaves, hblock⟩ := h.done hi hc
      refine ⟨o, o', ho, hE.ops (Nat.ne_of_lt hi) ho', hleaves.extends hE hn, ?_⟩
      rw [hE.blockOf_eq hk hn hleaves (hk.ops ho'), hblock]
    · exact hdone hc
  length := Nat.le_trans h.length hlength
  order := hframe.1.trans h.order
  inputs := hframe.2.1.trans h.inputs
  outputs := hframe.2.2.trans h.outputs

/-! ## One operator -/

/-- A reshape whose two sides were adapted stands in its lowered block. -/
theorem blockOf_reshape {k₁ k₂ : Graph} {o₁ o₂ : Operator} {a b : String}
    {shape : Option String} {seen : List String} {m : Nat} (hn : n < m) (hk₁ : k₁.Sound)
    (h₁ : Extends n k k₁) (h₂ : Extends n k₁ k₂) (hkeeps : g.Keeps k)
    (ho₁ : k₁.ops[n]? = some o₁)
    (hins : ∀ id ∈ o.inputs, id.index < g.tensors.length)
    (houts : ∀ id ∈ o.outputs, id.index < g.tensors.length)
    (hname : o₂.name = o.name) (hkind : o₂.kind = o.kind)
    (hinputs : o₁.inputs.filterMap k₁.nameOf? =
      (o.inputs.filterMap k.nameOf?).set 0 (readName tag a))
    (hbefore : k₁.nodesAt o₁.pre = turnBefore tag seen a) (hleaves₁ : k₁.Leaves m o₁)
    (hpre : o₂.pre = o₁.pre) (hsame : o₂.inputs = o₁.inputs)
    (houtputs : o₂.outputs.filterMap k₂.nameOf? =
      (o.outputs.filterMap k₁.nameOf?).set 0 (writtenName tag b))
    (hbehind : k₂.nodesAt o₂.post = turnAfter tag b) :
    k₂.blockOf o₂ = (Call.reshape a shape b).block tag seen (g.nodeOf o) := by
  have hps : ∀ p ∈ o₁.pre, p.index ≠ n ∧ p.index < k₁.ops.length := fun p hp => by
    obtain ⟨hle, q, hq, -⟩ := hleaves₁ p (List.mem_append_left _ hp)
    exact ⟨by omega, (List.getElem?_eq_some_iff.mp hq).1⟩
  have hreads : o₂.inputs.filterMap k₂.nameOf? =
      (o.inputs.filterMap g.nameOf?).set 0 (readName tag a) := by
    rw [hsame, h₂.keeps.filterMap_nameOf? (hk₁.ops ho₁).inputs, hinputs,
      hkeeps.filterMap_nameOf? hins]
  have hwrites : o₂.outputs.filterMap k₂.nameOf? =
      (o.outputs.filterMap g.nameOf?).set 0 (writtenName tag b) := by
    rw [houtputs, (hkeeps.trans h₁.keeps).filterMap_nameOf? houts]
  have hnode : k₂.nodeOf o₂ = { g.nodeOf o with
      inputs := (g.nodeOf o).inputs.set 0 (readName tag a)
      outputs := (g.nodeOf o).outputs.set 0 (writtenName tag b) } := by
    simp only [nodeOf, hname, hkind, hreads, hwrites]
  rw [blockOf, hpre, h₂.nodesAt_eq hk₁ hps, hbefore, hbehind, hnode]
  rfl

/-- Marking an operator changes no block. -/
theorem blockOf_marked {m : Nat} (hk : k.Sound) (hn : n < m) (hleaves : k.Leaves m o)
    (hs : k.SoundOp n o) :
    (k.marked n).blockOf { o with status := .transformed } = k.blockOf o :=
  have hsame : (k.marked n).blockOf { o with status := .transformed } =
      (k.marked n).blockOf o := rfl
  hsame.trans ((extends_marked n k).blockOf_eq hk hn hleaves hs)

theorem Populated.marked {reads writes : Nat} (h : Populated g reads writes k) :
    Populated g reads writes (k.marked n) := ⟨h.named, h.base, h.new, h.turned⟩

theorem soundOp_of_stands {i : Nat} {c : Call} (h : g.Stands i c o) : g.SoundOp i o where
  parsed := by rw [h.status]; rfl
  inputs := fun _ => lt_of_nameOf? h.inputs
  outputs := fun _ => lt_of_nameOf? h.map_outputs
  pre := by rw [h.pre]; simp
  post := by rw [h.post]; simp

/-- An operator that stands in its block is done once it is marked. -/
theorem exists_block_marked {k' : Graph} {o' : Operator} {m : Nat} {c : Call} {seen : List String}
    (hk : k'.Sound) (hn : n < m) (ho : g.ops[n]? = some o) (ho' : k'.ops[n]? = some o')
    (hleaves : k'.Leaves m o') (hblock : k'.blockOf o' = c.block tag seen (g.nodeOf o)) :
    ∃ o o', g.ops[n]? = some o ∧ (k'.marked n).ops[n]? = some o' ∧
      (k'.marked n).Leaves m o' ∧ (k'.marked n).blockOf o' = c.block tag seen (g.nodeOf o) :=
  ⟨o, { o' with status := .transformed }, ho, ops_marked ho',
    hleaves.extends (extends_marked n k') hn,
    (blockOf_marked hk hn hleaves (hk.ops ho')).trans hblock⟩

section Adapt

variable (h : g.Readable calls tag) (hA : Adapting g (g.Tagged n) n n k)
  (hP : Populated g n n k) (hR : Arranged g calls tag n k) (hn : n < g.ops.length)

include h hA hP hR hn

/-- A convolution stands alone in its block. -/
theorem Readable.adaptConv {a w z : String} {b : Option String}
    (hc : calls[n]? = some (.conv a w b z)) :
    Populated g (n + 1) (n + 1) (k.marked n) ∧ Arranged g calls tag (n + 1) (k.marked n) := by
  obtain ⟨o, hg, hstands⟩ := h.stands hc
  have ho : k.ops[n]? = some o := by rw [hR.waiting (Nat.le_refl n) hn, hg]
  have hleaves : k.Leaves g.ops.length o := fun p hp => by
    rw [hstands.pre, hstands.post] at hp
    cases hp
  constructor
  · refine (hP.weaken (Nat.le_succ n) (Nat.le_succ n) fun hle hlt hr => ?_).marked
    obtain rfl := Nat.le_antisymm hle (Nat.le_of_lt_succ hlt)
    obtain ⟨shape, hc'⟩ := h.call_of_reshapes hr
    rw [hc] at hc'
    cases hc'
  · refine hR.step hA.sound (extends_marked n k) hn (by simp [marked]) ⟨rfl, rfl, rfl⟩ fun hc' => ?_
    obtain rfl := Option.some.inj (hc.symm.trans hc')
    refine exists_block_marked hA.sound hn hg ho hleaves ?_
    rw [blockOf, hstands.pre, hstands.post, hR.keeps.nodeOf_eq (soundOp_of_stands hstands)]
    rfl

/-- A reshape stands in its block once both sides were adapted, one after the
other. -/
theorem Readable.adaptReshape (hvacant : g.Vacant) {a b : String} {shape : Option String}
    {input output : TensorId} {x y : Tensor} (hc : calls[n]? = some (.reshape a shape b))
    (hg : g.ops[n]? = some o) (hstands : g.Stands n (.reshape a shape b) o)
    (hinput : o.inputs[0]? = some input) (hx : g.tensors[input.index]? = some x) (hxn : x.name = a)
    (houtput : o.outputs[0]? = some output) (hy : g.tensors[output.index]? = some y)
    (hyn : y.name = b) (hr : g.Reshapes n x y) (hm : ∀ t ∈ g.tensors, t.Movable)
    (hclash : ¬g.ClashesAt n) :
    Populated g (n + 1) (n + 1) (((k.inputAdapted ⟨n⟩ input).outputAdapted ⟨n⟩ output).marked n) ∧
      Arranged g calls tag (n + 1)
        (((k.inputAdapted ⟨n⟩ input).outputAdapted ⟨n⟩ output).marked n) := by
  subst hxn hyn
  have ho : k.ops[n]? = some o := by rw [hR.waiting (Nat.le_refl n) hn, hg]
  have hxm := List.mem_of_getElem? hx
  have hym := List.mem_of_getElem? hy
  -- the input side
  have hA₁ := hA.adaptInput hg hx (hm x hxm) fun hin => hclash ⟨x, y, hr, Or.inl hin⟩
  have hP₁ := hP.adaptInput h.named hvacant hr hx
  have hT₁ := hP.inputTurned hA.sound h.named hvacant hr ho hstands.pre hstands.post hinput hx
    (h.tagged x hxm) (h.mem_turnedBefore hxm) hR.length
  obtain ⟨o₁, ho₁, hname₁, hkind₁, houts₁, hpost₁, hleaves₁, hins₁, hbefore⟩ := hT₁.op
  obtain ⟨hord₁, hin₁, hout₁, hlen₁⟩ := inputAdapted_frame k ⟨n⟩ input
  -- the output side
  have hA₂ := hA₁.adaptOutput hg hy (tagged_output_iff h.wired hr) (hm y hym) fun hout =>
    hclash ⟨x, y, hr, Or.inr hout⟩
  have hP₂ := hP₁.adaptOutput h.named hvacant hr hy
  have hT₂ := hP₁.outputTurned hA₁.sound ho₁ (hpost₁.trans hstands.post) hleaves₁
    (by rw [houts₁, houtput]) hy (h.tagged y hym) (Nat.le_trans hR.length hlen₁) hn
  obtain ⟨o₂, ho₂, hname₂, hkind₂, hins₂, hpre₂, hleaves₂, houts₂, hbehind⟩ := hT₂.op
  obtain ⟨hord₂, hin₂, hout₂, hlen₂⟩ :=
    outputAdapted_frame (k.inputAdapted ⟨n⟩ input) ⟨n⟩ output
  refine ⟨hP₂.marked, hR.step hA.sound
    ((hT₁.extends'.trans hT₂.extends').trans (extends_marked n _)) hn
    (by simp only [marked, List.length_modify]; omega)
    ⟨hord₂.trans hord₁, hin₂.trans hin₁, hout₂.trans hout₁⟩ fun hc' => ?_⟩
  obtain rfl := Option.some.inj (hc.symm.trans hc')
  have hs := soundOp_of_stands hstands
  rw [houts₁] at houts₂
  exact exists_block_marked hA₂.sound hn hg ho₂ hleaves₂
    (blockOf_reshape hn hA₁.sound hT₁.extends' hT₂.extends' hR.keeps ho₁ hs.inputs
      hs.outputs (hname₂.trans hname₁) (hkind₂.trans hkind₁) hins₁ hbefore hleaves₁
      hpre₂ hins₂ houts₂ hbehind)

/-- Adapting an operator lowers its call. -/
theorem Readable.adaptOp (hvacant : g.Vacant) (hm : ∀ t ∈ g.tensors, t.Movable)
    (hclash : ¬g.ClashesAt n) :
    Populated g (n + 1) (n + 1) (k.adaptedOp n) ∧ Arranged g calls tag (n + 1) (k.adaptedOp n) := by
  have hg := List.getElem?_eq_getElem hn
  obtain ⟨c, hc, hstands⟩ := h.call_of_op hg
  rw [adaptedOp, hR.waiting (Nat.le_refl n) hn, hg]
  cases c with
  | conv a w b z =>
      obtain ⟨params, hkind⟩ := hstands.kind
      have hsame : k.operandsAdapted n g.ops[n] = k := by rw [operandsAdapted, hkind]
      dsimp only
      rw [hsame]
      exact h.adaptConv hA hP hR hn hc
  | reshape a shape b =>
      obtain ⟨o, input, output, x, y, ho, -, hinput, hx, hxn, houtput, hy, hyn, hr⟩ :=
        h.reshapes_of_call hc
      obtain rfl := Option.some.inj (hg.symm.trans ho)
      have hboth : k.operandsAdapted n g.ops[n] =
          (k.inputAdapted ⟨n⟩ input).outputAdapted ⟨n⟩ output := by
        rw [operandsAdapted, show (g.ops[n]).kind = .reshape false from hstands.kind, hinput,
          houtput]
      dsimp only
      rw [hboth]
      exact h.adaptReshape hA hP hR hn hvacant hc hg hstands hinput hx hxn houtput hy hyn hr hm
        hclash

end Adapt

/-- The whole pass lowers all calls. -/
theorem Readable.adaptedUpTo {s : Scope} {layouts : SortedMap ExplicitLayout}
    (h : g.Readable calls tag) (hin : Intake s layouts g) (hvacant : g.Vacant)
    (hclash : ¬g.Clash) {n : Nat} (hn : n ≤ g.ops.length) :
    Populated g n n (g.adaptedUpTo n) ∧ Arranged g calls tag n (g.adaptedUpTo n) := by
  have hm := movable_of_not_clash hclash
  have hno := not_clashesAt_of_not_clash hclash
  induction n with
  | zero => exact ⟨populated_moved h.named, arranged_moved g calls tag⟩
  | succ n ih =>
      obtain ⟨hP, hR⟩ := ih (Nat.le_of_succ_le hn)
      exact h.adaptOp (hin.adaptedUpTo hm (Nat.le_of_succ_le hn) fun i _ => hno i) hP hR hn
        hvacant hm (hno n)

end Relayout.Graph
