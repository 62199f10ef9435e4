/-
# What adapting an operator keeps

The step lemmas of `Adapting`, one for each way a graph is changed: a splice, a
shared transpose, and from these one operator, written down as
`Graph.adaptedOp`.  What clashes in the graph under adaptation is read off the
graph as it was at the start.
-/
import Relayout.Proofs.Graph.Clash

namespace Relayout

theorem Tensor.bare_moved (t : Tensor) : t.moved.bare = t.bare.moved := by
  cases hl : t.layout with
  | none =>
      rw [Tensor.moved_of_layout_none hl, Tensor.moved_of_layout_none (t := t.bare) hl]
  | some l =>
      cases hm : l.isMatch with
      | true =>
          rw [Tensor.moved_of_isMatch hl hm, Tensor.moved_of_isMatch (t := t.bare) hl hm]
          rfl
      | false =>
          rw [Tensor.moved_of_not_isMatch hl hm,
            Tensor.moved_of_not_isMatch (t := t.bare) hl hm]
          rfl

/-- Moving by a layout that can be applied keeps the rank as right or wrong as
it was. -/
theorem Tensor.rank_moved_iff {t : Tensor} {l : Layout} (h : t.Movable) (hl : t.layout = some l) :
    t.moved.rank = l.rank ↔ t.rank = l.rank := by
  cases hm : l.isMatch with
  | true =>
      rw [Tensor.moved_of_isMatch hl hm]
      exact Iff.rfl
  | false =>
      rw [Tensor.moved_of_not_isMatch hl hm]
      have hrank := (h l hl).resolve_left (by simp [hm])
      refine ⟨fun _ => hrank, fun _ => ?_⟩
      simp [Tensor.rank, permutedDims, l.length_perm]

namespace Graph

variable {g k k' : Graph} {tagged : Tensor → Prop} {reads writes reads' writes' : Nat}
  {side : Side} {op : OpId} {name : String} {shape : List Nat} {l : Layout} {u : Tensor}

/-! ## Names -/

/-- A tensor that was there stays, under its name. -/
theorem SpliceStep.stays (h : k.SpliceStep side op u name shape l k') {j : Nat} {v : Tensor}
    (hv : k.tensors[j]? = some v) : ∃ v', k'.tensors[j]? = some v' ∧ v'.name = v.name := by
  by_cases hlookup : k.lookup? name = some ⟨j⟩
  · obtain ⟨v', hv', hr, -⟩ := h.hit hv hlookup
    exact ⟨v', hv', hr.name⟩
  · obtain ⟨v', hv', hr, -⟩ := h.other hv hlookup
    exact ⟨v', hv', hr.name⟩

/-- A tensor that was there stays under its name.  It keeps its edges, up to
those of the spliced operator on the side of the splice. -/
theorem SpliceStep.keeps (h : k.SpliceStep side op u name shape l k') {j : Nat} {v v' : Tensor}
    (hv : k.tensors[j]? = some v) (hv' : k'.tensors[j]? = some v') :
    v'.name = v.name ∧ (∀ p ∈ v.consumers, (side = .inputs → p ≠ op) → p ∈ v'.consumers) ∧
      ∀ p ∈ v.producers, (side = .outputs → p ≠ op) → p ∈ v'.producers := by
  obtain ⟨w, hw, hr, -⟩ | ⟨w, hw, hr, -⟩ := h.origin hv'
  · obtain rfl := Option.some.inj (hv.symm.trans hw)
    exact ⟨hr.name, hr.consumer, hr.producer⟩
  · rcases hw with ⟨hw, -⟩ | ⟨-, rfl, -⟩
    · obtain rfl := Option.some.inj (hv.symm.trans hw)
      exact ⟨hr.name, hr.consumer, hr.producer⟩
    · exact absurd (List.getElem?_eq_some_iff.mp hv).1 (Nat.lt_irrefl _)

/-! ## What a splice keeps -/

/-- A splice completes the tensor of its name, which is an open one, and tags
nothing else. -/
theorem Adapting.spliced (h : Adapting g tagged reads writes k)
    (hstep : k.SpliceStep side op u name shape l k') (hfree : ¬k.Occupied name)
    (hrank : shape.length = l.rank) {i : Nat} {t : Tensor} (ht : g.tensors[i]? = some t) :
    ∃ v, k'.tensors[i]? = some v ∧ Carries (tagged t ∨ t.name = name) t v := by
  obtain ⟨v, hv, hc⟩ := h.old ht
  by_cases hlookup : k.lookup? name = some ⟨i⟩
  · obtain ⟨v', hv', hr, hproducers⟩ := hstep.hit hv hlookup
    have hname := (lookup?_iff h.named hv).mp hlookup
    have hopen : v.status.isTransformed = false := by
      rw [← Bool.not_eq_true]
      exact fun hclosed => hfree ⟨⟨i⟩, v, hlookup, hv, hclosed⟩
    exact ⟨v', hv', (hc.completed hopen hrank hr hproducers).congr
      ⟨fun _ => Or.inr (hc.name.symm.trans hname), fun _ => trivial⟩⟩
  · obtain ⟨v', hv', hr, hlength⟩ := hstep.other hv hlookup
    refine ⟨v', hv', (hc.rewired hr hlength).congr ⟨Or.inl, fun ht' => ht'.resolve_right ?_⟩⟩
    exact fun hname => hlookup ((lookup?_iff h.named hv).mpr (hc.name.trans hname))

/-- A splice of operator `op` tags one name, and uses up one side of `op`. -/
theorem Adapting.splice (h : Adapting g tagged reads writes k)
    (hstep : k.SpliceStep side op u name shape l k') (hsound : k'.Sound)
    (hfree : ¬k.Occupied name) (hrank : shape.length = l.rank)
    {f : Operator → Operator} {turn : Operator}
    (hops : k'.ops = k.ops.modify op.index f ++ [turn])
    (hf : ∀ o o', Awaits reads writes op.index o o' → Awaits reads' writes' op.index o (f o'))
    (hreads : reads ≤ reads') (hwrites : writes ≤ writes')
    (hin : side = .inputs → op.index < reads') (hout : side = .outputs → op.index < writes') :
    Adapting g (fun t => tagged t ∨ t.name = name) reads' writes' k' where
  named := hstep.named h.named
  sound := hsound
  old := fun ht => h.spliced hstep hfree hrank ht
  new := by
    intro i v' hi hv'
    obtain ⟨v, hv, hr, -⟩ | ⟨v, -, hr, -⟩ := hstep.origin hv'
    · rw [hr.status]
      exact h.new hi hv
    · rw [hr.status]
      rfl
  ops := by
    intro i o ho
    obtain ⟨o', ho', ha⟩ := h.ops ho
    have hlt : i < (k.ops.modify op.index f).length := by
      simpa using (List.getElem?_eq_some_iff.mp ho').1
    rw [hops, List.getElem?_append_left hlt, List.getElem?_modify, ho']
    by_cases hi : op.index = i
    · subst hi
      exact ⟨f o', by simp, hf o o' ha⟩
    · exact ⟨o', by simp [hi], ha.weaken hreads hwrites⟩
  reader := by
    intro i o x v' hi ho hx hv'
    have hne : side = .inputs → (⟨i⟩ : OpId) ≠ op := by
      rintro hside rfl
      exact absurd (hin hside) (Nat.not_lt.mpr hi)
    by_cases hlt : x.index < k.tensors.length
    · have hv := List.getElem?_eq_getElem hlt
      exact (hstep.keeps hv hv').2.1 _ (h.reader (Nat.le_trans hreads hi) ho hx hv) hne
    · obtain ⟨o', ho', ha⟩ := h.ops ho
      refine absurd ((h.sound.ops ho').inputs x ?_) hlt
      rw [ha.inputs (Nat.le_trans hreads hi)]
      exact List.mem_of_getElem? hx
  writer := by
    intro i o y v' hi ho hy hv'
    have hne : side = .outputs → (⟨i⟩ : OpId) ≠ op := by
      rintro hside rfl
      exact absurd (hout hside) (Nat.not_lt.mpr hi)
    by_cases hlt : y.index < k.tensors.length
    · have hv := List.getElem?_eq_getElem hlt
      exact (hstep.keeps hv hv').2.2 _ (h.writer (Nat.le_trans hwrites hi) ho hy hv) hne
    · obtain ⟨o', ho', ha⟩ := h.ops ho
      refine absurd ((h.sound.ops ho').outputs y ?_) hlt
      rw [ha.outputs (Nat.le_trans hwrites hi)]
      exact List.mem_of_getElem? hy

/-- Sharing a transpose tags nothing. -/
theorem Adapting.readingInstead (h : Adapting g tagged reads writes k) {operand moved : TensorId}
    (hmoved : moved.index < k.tensors.length) (hop : op.index = reads) :
    Adapting g tagged (reads + 1) writes (k.readingInstead op operand moved) where
  named := h.named.readingInstead op operand moved
  sound := h.sound.readingInstead hmoved
  old := by
    intro i t ht
    obtain ⟨v, hv, hc⟩ := h.old ht
    obtain ⟨v', hv', hr, hproducers⟩ := getElem?_readingInstead op operand moved hv op
    exact ⟨v', hv', hc.rewired hr (congrArg List.length hproducers)⟩
  new := by
    intro i v' hi hv'
    obtain ⟨v, hv, hr, -⟩ := before_readingInstead hv'
    rw [hr.status]
    exact h.new hi hv
  ops := by
    intro i o ho
    obtain ⟨o', ho', ha⟩ := h.ops ho
    rw [Graph.readingInstead, List.getElem?_modify, ho']
    by_cases hi : op.index = i
    · refine ⟨o'.withInput moved, by simp [hi], ha.kind, fun hr => ?_, ha.outputs, ha.status,
        ha.parsed⟩
      omega
    · exact ⟨o', by simp [hi], ha.kind, fun hr => ha.inputs (by omega), ha.outputs, ha.status,
        ha.parsed⟩
  reader := by
    intro i o x v' hi ho hx hv'
    obtain ⟨v, hv, hr, -⟩ := before_readingInstead hv'
    refine hr.consumer _ (h.reader (by omega) ho hx hv) fun _ heq => ?_
    rw [← heq] at hop
    simp only at hop
    omega
  writer := by
    intro i o y v' hi ho hy hv'
    obtain ⟨v, hv, hr, -⟩ := before_readingInstead hv'
    exact hr.producer _ (h.writer hi ho hy hv) fun hside => by cases hside

/-! ## Clashes, seen from the graph as it was read -/

theorem Adapting.congr {tagged' : Tensor → Prop} (h : Adapting g tagged reads writes k)
    (hiff : ∀ t ∈ g.tensors, tagged t ↔ tagged' t) : Adapting g tagged' reads writes k :=
  { h with
    old := fun ht =>
      let ⟨u, hu, hc⟩ := h.old ht
      ⟨u, hu, hc.congr (hiff _ (List.mem_of_getElem? ht))⟩ }

theorem Adapting.weaken (h : Adapting g tagged reads writes k) (hreads : reads ≤ reads')
    (hwrites : writes ≤ writes') : Adapting g tagged reads' writes' k :=
  { h with
    ops := fun ho =>
      let ⟨o', ho', ha⟩ := h.ops ho
      ⟨o', ho', ha.weaken hreads hwrites⟩
    reader := fun hi => h.reader (Nat.le_trans hreads hi)
    writer := fun hi => h.writer (Nat.le_trans hwrites hi) }

/-- A tensor is found under its name. -/
theorem Adapting.exists_lookup (h : Adapting g tagged reads writes k) {t : Tensor}
    (ht : t ∈ g.tensors) :
    ∃ i v, g.tensors[i]? = some t ∧ k.tensors[i]? = some v ∧ Carries (tagged t) t v ∧
      k.lookup? t.name = some ⟨i⟩ := by
  obtain ⟨i, hi⟩ := List.getElem?_of_mem ht
  obtain ⟨v, hv, hc⟩ := h.old hi
  refine ⟨i, v, hi, hv, hc, ?_⟩
  rw [← hc.name]
  exact lookup?_of_name h.named hv

/-- Only tensors that had a layout from the start were moved. -/
theorem Adapting.occupied_iff (h : Adapting g tagged reads writes k) (name : String) :
    k.Occupied name ↔ ∃ t ∈ g.tensors, t.name = name ∧ t.layout.isSome = true := by
  constructor
  · rintro ⟨e, u, hlookup, hu, hclosed⟩
    by_cases hlt : e.index < g.tensors.length
    · have ht := List.getElem?_eq_getElem hlt
      obtain ⟨u', hu', hc⟩ := h.old ht
      rw [hu] at hu'
      cases hu'
      have hname := (lookup?_iff h.named hu).mp hlookup
      refine ⟨_, List.mem_of_getElem? ht, hc.name.symm.trans hname, ?_⟩
      refine Option.isSome_iff_ne_none.mpr fun hnone => ?_
      rw [(hc.opened hnone).1] at hclosed
      cases hclosed
    · rw [h.new (Nat.not_lt.mp hlt) hu] at hclosed
      cases hclosed
  · rintro ⟨t, ht, rfl, hl⟩
    obtain ⟨i, hi⟩ := List.getElem?_of_mem ht
    obtain ⟨u, hu, hc⟩ := h.old hi
    obtain ⟨l, hl'⟩ := Option.isSome_iff_exists.mp hl
    have hstatus : u.status = .transformed :=
      (congrArg Tensor.status (hc.known hl).1).trans (Tensor.moved_status (t := t.bare) hl')
    exact ⟨⟨i⟩, u, by rw [← hc.name]; exact lookup?_of_name h.named hu, hu, by rw [hstatus]; rfl⟩

theorem producerNamed?_eq_none {name : String} :
    producerNamed? k name = none ↔ ∀ e u, k.lookup? name = some e →
      k.tensors[e.index]? = some u → u.producers = [] := by
  constructor
  · intro hnone e u he hu
    refine List.head?_eq_none_iff.mp (Option.eq_none_iff_forall_ne_some.mpr fun turn hturn => ?_)
    rw [producerNamed?_eq_some.mpr ⟨u, he, hu, hturn⟩] at hnone
    cases hnone
  · intro h
    refine Option.eq_none_iff_forall_ne_some.mpr ?_
    rintro ⟨e, turn⟩ hsome
    obtain ⟨u, he, hu, hturn⟩ := producerNamed?_eq_some.mp hsome
    rw [h e u he hu] at hturn
    cases hturn

/-- A tensor has the rank of its layout, unless it was misranked. -/
theorem Carries.rank_iff {tagged : Prop} {t u : Tensor} (h : Carries tagged t u) (hm : t.Movable)
    {l : Layout} (hl : u.layout = some l) : u.rank ≠ l.rank ↔ t.Misranked := by
  cases hlt : t.layout with
  | none =>
      refine iff_of_false (fun hne => hne ((h.opened hlt).2.2 l hl).1) ?_
      rintro ⟨l', hl', -⟩
      rw [hlt] at hl'
      cases hl'
  | some l' =>
      have hbare := (h.known (by rw [hlt]; rfl)).1
      have hll : l' = l := by
        have := congrArg Tensor.layout hbare
        rw [Tensor.moved_layout, Tensor.bare_layout, Tensor.bare_layout, hl, hlt] at this
        exact (Option.some.inj this).symm
      subst hll
      have hrank : u.rank = t.moved.rank := by
        rw [← Tensor.bare_moved] at hbare
        exact congrArg (fun t => t.shape.length) hbare
      rw [hrank, ne_eq, Tensor.rank_moved_iff hm hlt]
      refine ⟨fun hne => ⟨l', hlt, hne⟩, ?_⟩
      rintro ⟨l'', hl'', hne⟩
      rw [hlt] at hl''
      cases hl''
      exact hne

section Operands

variable {n : Nat} {id : TensorId} {t : Tensor}

theorem Adapting.inputClash_iff (h : Adapting g (g.Tagged n) reads writes k)
    (ht : g.tensors[id.index]? = some t) (hm : t.Movable) (hu : k.tensors[id.index]? = some u) :
    (∃ l, u.layout = some l ∧ k.InputClash u l) ↔ g.ClashesIn n t := by
  obtain ⟨u', hu', hc⟩ := h.old ht
  rw [hu] at hu'
  cases hu'
  have hname : (producerNamed? k (synthesizedName "Transposed" u.name) = none ∧
      k.Occupied (synthesizedName "Transposed" u.name)) ↔ ∃ v ∈ g.tensors,
        v.name = synthesizedName "Transposed" t.name ∧ v.layout.isSome = true ∧
          v.producers = [] := by
    rw [hc.name, h.occupied_iff, producerNamed?_eq_none]
    constructor
    · rintro ⟨hnone, v, hv, hvn, hl⟩
      obtain ⟨i, w, -, hw, hcw, hlookup⟩ := h.exists_lookup hv
      refine ⟨v, hv, hvn, hl, List.length_eq_zero_iff.mp ?_⟩
      rw [← (hcw.known hl).2, hnone ⟨i⟩ w (hvn ▸ hlookup) hw]
      rfl
    · rintro ⟨v, hv, hvn, hl, hproducers⟩
      obtain ⟨i, w, -, hw, hcw, hlookup⟩ := h.exists_lookup hv
      refine ⟨fun e w' he hw' => ?_, v, hv, hvn, hl⟩
      rw [← hvn, hlookup] at he
      cases he
      rw [hw] at hw'
      cases hw'
      refine List.length_eq_zero_iff.mp ?_
      rw [(hcw.known hl).2, hproducers]
      rfl
  constructor
  · rintro ⟨l, hl, hrank | hocc⟩
    · exact ⟨hc.tagged_iff.mp (by rw [hl]; rfl), Or.inl ((hc.rank_iff hm hl).mp hrank)⟩
    · exact ⟨hc.tagged_iff.mp (by rw [hl]; rfl), Or.inr (hname.mp hocc)⟩
  · rintro ⟨htag, hclash⟩
    obtain ⟨l, hl⟩ := Option.isSome_iff_exists.mp (hc.tagged_iff.mpr htag)
    exact ⟨l, hl, hclash.imp (hc.rank_iff hm hl).mpr hname.mpr⟩

theorem Adapting.outputClash_iff (h : Adapting g tagged reads writes k)
    (htagged : tagged t ↔ g.Tagged n t)
    (ht : g.tensors[id.index]? = some t) (hm : t.Movable) (hu : k.tensors[id.index]? = some u) :
    (∃ l, u.layout = some l ∧ k.OutputClash u l) ↔ g.ClashesOut n t := by
  obtain ⟨u', hu', hc⟩ := h.old ht
  rw [hu] at hu'
  cases hu'
  have hname := h.occupied_iff (synthesizedName "ToTranspose" u.name)
  rw [hc.name] at hname
  unfold OutputClash
  rw [hc.name]
  constructor
  · rintro ⟨l, hl, hclash⟩
    exact ⟨htagged.mp (hc.tagged_iff.mp (by rw [hl]; rfl)),
      hclash.imp (hc.rank_iff hm hl).mp hname.mp⟩
  · rintro ⟨htag, hclash⟩
    obtain ⟨l, hl⟩ := Option.isSome_iff_exists.mp (hc.tagged_iff.mpr (htagged.mpr htag))
    exact ⟨l, hl, hclash.imp (hc.rank_iff hm hl).mpr hname.mpr⟩

end Operands

/-! ## One operator -/

/-- The graph with the input of a reshape turned back, if it has a layout. -/
def inputAdapted (k : Graph) (id : OpId) (input : TensorId) : Graph :=
  match k.tensors[input.index]?.bind fun u => u.layout.map (u, ·) with
  | some (u, l) => k.inputPreserved id input u l
  | none => k

/-- The graph with the output of a reshape turned, if it has a layout. -/
def outputAdapted (k : Graph) (id : OpId) (output : TensorId) : Graph :=
  match k.tensors[output.index]?.bind fun u => u.layout.map (u, ·) with
  | some (u, l) => k.outputPreserved id output u l
  | none => k

/-- The graph with an operator adapted. -/
def operandsAdapted (k : Graph) (n : Nat) (o : Operator) : Graph :=
  match o.kind, o.inputs[0]?, o.outputs[0]? with
  | .reshape false, some input, some output =>
      (k.inputAdapted ⟨n⟩ input).outputAdapted ⟨n⟩ output
  | _, _, _ => k

/-- The graph with an operator marked as adapted. -/
def marked (k : Graph) (n : Nat) : Graph :=
  { k with ops := k.ops.modify n fun o => { o with status := .transformed } }

/-- The graph after operator `n` was adapted. -/
def adaptedOp (k : Graph) (n : Nat) : Graph :=
  match k.ops[n]? with
  | some o => (k.operandsAdapted n o).marked n
  | none => k

theorem inputAdapted_of_none {id : OpId} {input : TensorId} (hu : k.tensors[input.index]? = some u)
    (hl : u.layout = none) : k.inputAdapted id input = k := by
  simp [inputAdapted, hu, hl]

theorem inputAdapted_of_some {id : OpId} {input : TensorId} (hu : k.tensors[input.index]? = some u)
    (hl : u.layout = some l) : k.inputAdapted id input = k.inputPreserved id input u l := by
  simp [inputAdapted, hu, hl]

theorem outputAdapted_of_none {id : OpId} {output : TensorId}
    (hu : k.tensors[output.index]? = some u) (hl : u.layout = none) :
    k.outputAdapted id output = k := by
  simp [outputAdapted, hu, hl]

theorem outputAdapted_of_some {id : OpId} {output : TensorId}
    (hu : k.tensors[output.index]? = some u) (hl : u.layout = some l) :
    k.outputAdapted id output = k.outputPreserved id output u l := by
  simp [outputAdapted, hu, hl]

section Reshape

variable {n : Nat} {o : Operator} {input output : TensorId} {x y : Tensor}

/-- An input that shares a transpose: what has its name has a producer, and was
tagged when it got one. -/
theorem Adapting.shareInput (h : Adapting g (g.Tagged n) n n k) {existing : TensorId} {turn : OpId}
    (hshared : producerNamed? k (synthesizedName "Transposed" x.name) = some (existing, turn)) :
    Adapting g (fun t => g.Tagged n t ∨ g.Tagged n x ∧
      t.name = synthesizedName "Transposed" x.name ∧ t.producers = []) (n + 1) n
      (k.readingInstead ⟨n⟩ input existing) := by
  obtain ⟨w, he, hw, hturn⟩ := producerNamed?_eq_some.mp hshared
  have hread : Adapting g _ (n + 1) n (k.readingInstead ⟨n⟩ input existing) :=
    h.readingInstead (List.getElem?_eq_some_iff.mp hw).1 rfl
  refine hread.congr fun t ht => ⟨Or.inl, ?_⟩
  rintro (ht' | ⟨-, hname, hproducers⟩)
  · exact ht'
  · obtain ⟨i, v, -, hv, hc, hlookup⟩ := h.exists_lookup ht
    rw [hname, he] at hlookup
    cases hlookup
    obtain rfl := Option.some.inj (hw.symm.trans hv)
    refine hc.tagged_of_producers hproducers fun hnil => ?_
    rw [hnil] at hturn
    cases hturn

/-- An input that is turned by a new transpose: what has the name of its other
form had no producer. -/
theorem Adapting.spliceInput (h : Adapting g (g.Tagged n) n n k) (ho : g.ops[n]? = some o)
    (hu : k.tensors[input.index]? = some u) (hname : u.name = x.name) (htag : g.Tagged n x)
    (hfree : ¬k.Occupied (synthesizedName "Transposed" u.name))
    (hshared : producerNamed? k (synthesizedName "Transposed" u.name) = none) :
    Adapting g (fun t => g.Tagged n t ∨ g.Tagged n x ∧
      t.name = synthesizedName "Transposed" x.name ∧ t.producers = []) (n + 1) n
      (k.inputSpliced ⟨n⟩ input u l) := by
  obtain ⟨o', ho', -⟩ := h.ops ho
  have hsound : (k.inputSpliced ⟨n⟩ input u l).Sound :=
    h.sound.inputSpliced h.named (List.getElem?_eq_some_iff.mp ho').1 hu l
  refine (h.splice (inputSpliced_step k ⟨n⟩ input u l)
    hsound hfree ?_ (inputSpliced_ops k ⟨n⟩ input u l) ?_ (Nat.le_succ n) (Nat.le_refl n)
    (fun _ => Nat.lt_succ_self n) (fun hside => by cases hside)).congr ?_
  · simp [permutedDims, Layout.length_perm]
  · exact fun _ _ ha => ⟨ha.kind, fun hr => absurd hr (by simp), ha.outputs, ha.status,
      ha.parsed⟩
  · intro t ht
    refine or_congr_right' fun hopen => ?_
    rw [hname]
    refine ⟨fun htn => ⟨htag, htn, ?_⟩, fun ht => ht.2.1⟩
    obtain ⟨i, v, -, hv, hc, hlookup⟩ := h.exists_lookup ht
    rw [htn, ← hname] at hlookup
    have hl : t.layout = none :=
      Option.not_isSome_iff_eq_none.mp fun hsome => hopen (.known hsome)
    exact hc.producers_nil hopen hl (producerNamed?_eq_none.mp hshared ⟨i⟩ v hlookup hv)

/-- Adapting the input of reshape `n` keeps the invariant. -/
theorem Adapting.adaptInput (h : Adapting g (g.Tagged n) n n k) (ho : g.ops[n]? = some o)
    (hx : g.tensors[input.index]? = some x) (hm : x.Movable) (hclash : ¬g.ClashesIn n x) :
    Adapting g (fun t => g.Tagged n t ∨ g.Tagged n x ∧
      t.name = synthesizedName "Transposed" x.name ∧ t.producers = []) (n + 1) n
      (k.inputAdapted ⟨n⟩ input) := by
  obtain ⟨u, hu, hc⟩ := h.old hx
  cases hl : u.layout with
  | none =>
      rw [inputAdapted_of_none hu hl]
      have hopen : ¬g.Tagged n x := fun htag => by
        have := hc.tagged_iff.mpr htag
        rw [hl] at this
        cases this
      exact (h.weaken (Nat.le_succ n) (Nat.le_refl n)).congr fun t _ =>
        ⟨Or.inl, fun ht => ht.resolve_right fun ht => hopen ht.1⟩
  | some l =>
      have hk : ¬k.InputClash u l := fun hk => hclash ((h.inputClash_iff hx hm hu).mp ⟨l, hl, hk⟩)
      rw [inputAdapted_of_some hu hl, inputPreserved]
      cases hshared : producerNamed? k (synthesizedName "Transposed" u.name) with
      | some found =>
          rw [hc.name] at hshared
          exact h.shareInput hshared
      | none =>
          exact h.spliceInput ho hu hc.name (hc.tagged_iff.mp (by rw [hl]; rfl))
            (fun hocc => hk (Or.inr ⟨hshared, hocc⟩)) hshared

/-- Adapting the output of reshape `n` keeps the invariant. -/
theorem Adapting.adaptOutput (h : Adapting g tagged (n + 1) n k) (ho : g.ops[n]? = some o)
    (hy : g.tensors[output.index]? = some y) (htagged : tagged y ↔ g.Tagged n y)
    (hm : y.Movable) (hclash : ¬g.ClashesOut n y) :
    Adapting g (fun t => tagged t ∨ g.Tagged n y ∧ t.name = synthesizedName "ToTranspose" y.name)
      (n + 1) (n + 1) (k.outputAdapted ⟨n⟩ output) := by
  obtain ⟨u, hu, hc⟩ := h.old hy
  obtain ⟨o', ho', -⟩ := h.ops ho
  cases hl : u.layout with
  | none =>
      rw [outputAdapted_of_none hu hl]
      have hopen : ¬g.Tagged n y := fun htag => by
        have := hc.tagged_iff.mpr (htagged.mpr htag)
        rw [hl] at this
        cases this
      exact (h.weaken (Nat.le_refl _) (Nat.le_succ n)).congr fun t _ =>
        ⟨Or.inl, fun ht => ht.resolve_right fun ht => hopen ht.1⟩
  | some l =>
      have htag : g.Tagged n y := htagged.mp (hc.tagged_iff.mp (by rw [hl]; rfl))
      have hk : ¬k.OutputClash u l := fun hk =>
        hclash ((h.outputClash_iff htagged hy hm hu).mp ⟨l, hl, hk⟩)
      rw [outputAdapted_of_some hu hl]
      have hsound : (k.outputPreserved ⟨n⟩ output u l).Sound :=
        h.sound.outputPreserved h.named (List.getElem?_eq_some_iff.mp ho').1 hu l
      refine (h.splice (outputPreserved_step k ⟨n⟩ output u l)
        hsound (fun hocc => hk (Or.inr hocc)) ?_ (outputPreserved_ops k ⟨n⟩ output u l) ?_
        (Nat.le_refl _) (Nat.le_succ n) (fun hside => by cases hside)
        (fun _ => Nat.lt_succ_self n)).congr ?_
      · simp [permutedDims, Layout.length_perm]
      · exact fun _ _ ha => ⟨ha.kind, ha.inputs, fun hw => absurd hw (by simp), ha.status,
          fun hw => absurd hw (by simp)⟩
      · intro t _
        rw [hc.name]
        exact or_congr_right ⟨fun hname => ⟨htag, hname⟩, And.right⟩

end Reshape

theorem ops_marked {n : Nat} {o : Operator} (ho : k.ops[n]? = some o) :
    (k.marked n).ops[n]? = some { o with status := .transformed } := by
  rw [marked, List.getElem?_modify_eq, ho]
  rfl

theorem Adapting.marked {n : Nat} (h : Adapting g tagged (n + 1) (n + 1) k) :
    Adapting g tagged (n + 1) (n + 1) (k.marked n) where
  named := h.named
  sound :=
    { h.sound with
      producers := fun u hu p hp => by simpa [Graph.marked] using h.sound.producers u hu p hp
      ops := fun {i o} ho => by
        rw [Graph.marked, List.getElem?_modify] at ho
        obtain ⟨o', ho', rfl⟩ := Option.map_eq_some_iff.mp ho
        have hs : (k.marked n).SoundOp i o' :=
          (h.sound.ops ho').grow (Nat.le_refl _) (by simp [Graph.marked])
        by_cases hi : n = i
        · rw [if_pos hi]
          exact ⟨rfl, hs.inputs, hs.outputs, hs.pre, hs.post⟩
        · rw [if_neg hi]
          exact hs
      order := fun id hid => by simpa [Graph.marked] using h.sound.order id hid }
  old := h.old
  new := h.new
  ops := by
    intro i o ho
    obtain ⟨o', ho', ha⟩ := h.ops ho
    rw [Graph.marked, List.getElem?_modify, ho']
    by_cases hi : n = i
    · subst hi
      exact ⟨{ o' with status := .transformed }, by simp, ha.kind, ha.inputs, ha.outputs,
        Or.inr rfl, fun hw => absurd hw (by simp)⟩
    · exact ⟨o', by simp [hi], ha⟩
  reader := h.reader
  writer := h.writer

/-- A tensor that an operator writes is not what an input is turned into. -/
theorem tagged_output_iff (hwired : g.Wired) {n : Nat} {x y : Tensor} (h : g.Reshapes n x y) :
    (g.Tagged n y ∨ g.Tagged n x ∧ y.name = synthesizedName "Transposed" x.name ∧
      y.producers = []) ↔ g.Tagged n y := by
  refine or_iff_left fun hturned => ?_
  obtain ⟨o, -, output, ho, -, -, -, houtput, hy⟩ := h
  have := hwired.mem_producers ho hy (List.mem_of_getElem? houtput)
  rw [hturned.2.2] at this
  cases this

/-- Adapting operator `n` keeps the invariant. -/
theorem Adapting.adaptOp {n : Nat} {o : Operator} (h : Adapting g (g.Tagged n) n n k)
    (hwired : g.Wired) (hm : ∀ t ∈ g.tensors, t.Movable) (ho : g.ops[n]? = some o)
    (hkind : (∃ c, o.kind = .conv c) ∨ ∃ x y, g.Reshapes n x y) (hclash : ¬g.ClashesAt n) :
    Adapting g (g.Tagged (n + 1)) (n + 1) (n + 1) (k.adaptedOp n) := by
  obtain ⟨o', ho', ha⟩ := h.ops ho
  rw [adaptedOp, ho']
  refine Adapting.marked ?_
  rcases hkind with ⟨c, hconv⟩ | ⟨x, y, hreshape⟩
  · have hsame : k.operandsAdapted n o' = k := by rw [operandsAdapted, ha.kind, hconv]
    rw [hsame]
    refine (h.weaken (Nat.le_succ n) (Nat.le_succ n)).congr fun t _ =>
      (tagged_succ_of_not (fun x y hr => ?_) t).symm
    obtain ⟨o'', -, -, ho'', hk, -⟩ := hr
    rw [ho] at ho''
    cases ho''
    rw [hconv] at hk
    cases hk
  · have hreshape' := hreshape
    obtain ⟨o'', input, output, ho'', hk, hinput, hx, houtput, hy⟩ := hreshape'
    rw [ho] at ho''
    cases ho''
    have hboth : k.operandsAdapted n o' = (k.inputAdapted ⟨n⟩ input).outputAdapted ⟨n⟩ output := by
      rw [operandsAdapted, ha.kind, hk, ha.inputs (Nat.le_refl n), hinput,
        ha.outputs (Nat.le_refl n), houtput]
    rw [hboth]
    have h₁ := h.adaptInput ho hx (hm x (List.mem_of_getElem? hx)) fun hin =>
      hclash ⟨x, y, hreshape, Or.inl hin⟩
    have h₂ := h₁.adaptOutput ho hy (tagged_output_iff hwired hreshape)
      (hm y (List.mem_of_getElem? hy)) fun hout => hclash ⟨x, y, hreshape, Or.inr hout⟩
    exact h₂.congr fun t _ => (tagged_succ hreshape t).symm

end Graph

end Relayout
