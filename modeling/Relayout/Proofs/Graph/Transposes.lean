/-
# Which transposes are spliced in

Where no tensor has a reserved name, the pass adds one transpose for each input
with a layout that some reshape reads, before the first of them, and one for
each output with a layout that a reshape writes, behind it.  `Inserting` says so
of the graph after each change: by operator, what stands in its slots and in its
lists, and that the created operators are what the lists hold.
-/
import Relayout.Proofs.Graph.Blocks
import Relayout.Proofs.Graph.Boundary
import Relayout.Proofs.Violations

namespace Relayout.Graph

variable {g k k' : Graph} {reads writes i n : Nat} {o o₁ o₂ : Operator}
  {input output : TensorId} {x y : Tensor} {l : Layout}

/-- Reshape `i` reads `x`, which has the layout `l`. -/
def ReadsTagged (g : Graph) (i : Nat) (input : TensorId) (x : Tensor) (l : Layout) : Prop :=
  ∃ o output y, g.ReshapeAt i o input output x y ∧ x.layout = some l

/-- Reshape `i` writes `y`, which has the layout `l`. -/
def WritesTagged (g : Graph) (i : Nat) (output : TensorId) (y : Tensor) (l : Layout) : Prop :=
  ∃ o input x, g.ReshapeAt i o input output x y ∧ y.layout = some l

/-- What has become of the inputs of operator `i`, and what stands before it. -/
inductive InputSide (g k : Graph) (i : Nat) (o o' : Operator) : Prop where
  | kept (h : ∀ input x l, ¬g.ReadsTagged i input x l) (hins : o'.inputs = o.inputs)
      (hpre : o'.pre = [])
  | shared {input moved : TensorId} {x : Tensor} {l : Layout} (h : g.ReadsTagged i input x l)
      (hbefore : ∃ j y, j < i ∧ g.Reshapes j x y)
      (hmoved : k.nameOf? moved = some (synthesizedName "Transposed" x.name))
      (hins : o'.inputs = o.inputs.set 0 moved) (hpre : o'.pre = [])
  | turned {input moved : TensorId} {x : Tensor} {l : Layout} {p : OpId}
      (h : g.ReadsTagged i input x l) (hfirst : ¬∃ j y, j < i ∧ g.Reshapes j x y)
      (hmoved : k.nameOf? moved = some (synthesizedName "Transposed" x.name))
      (hins : o'.inputs = o.inputs.set 0 moved) (hpre : o'.pre = [p])
      (hbehind : g.ops.length ≤ p.index)
      (hturn : k.ops[p.index]? =
        some (.turn l.inverse.perm (synthesizedName "Transposed" x.name) input moved))

/-- What has become of the outputs of operator `i`, and what stands behind
it. -/
inductive OutputSide (g k : Graph) (i : Nat) (o o' : Operator) : Prop where
  | kept (h : ∀ output y l, ¬g.WritesTagged i output y l) (houts : o'.outputs = o.outputs)
      (hpost : o'.post = [])
  | turned {output moved : TensorId} {y : Tensor} {l : Layout} {p : OpId}
      (h : g.WritesTagged i output y l)
      (hmoved : k.nameOf? moved = some (synthesizedName "ToTranspose" y.name))
      (houts : o'.outputs = o.outputs.set 0 moved) (hpost : o'.post = [p])
      (hbehind : g.ops.length ≤ p.index)
      (hturn : k.ops[p.index]? =
        some (.turn l.perm (synthesizedName "Transpose" y.name) moved output))

/-- What has become of operator `i`, if the inputs before `reads` and the
outputs before `writes` were adapted. -/
structure Retouched (g k : Graph) (reads writes i : Nat) (o o' : Operator) : Prop where
  index : o'.index = o.index
  name : o'.name = o.name
  kind : o'.kind = o.kind
  read : i < reads → InputSide g k i o o'
  unread : reads ≤ i → o'.inputs = o.inputs ∧ o'.pre = []
  written : i < writes → OutputSide g k i o o'
  unwritten : writes ≤ i → o'.outputs = o.outputs ∧ o'.post = []

/-- What is spliced in at operator `i`. -/
def splicesAt (k : Graph) (i : Nat) : List OpId := (k.ops[i]?.map fun o => o.pre ++ o.post).getD []

/-- The graph `g` while transposes are put in. -/
structure Inserting (g : Graph) (reads writes : Nat) (k : Graph) : Prop where
  ops : ∀ {i o}, g.ops[i]? = some o →
    ∃ o', k.ops[i]? = some o' ∧ Retouched g k reads writes i o o'
  length : g.ops.length ≤ k.ops.length
  added : k.created = (List.range' g.ops.length (k.ops.length - g.ops.length)).map OpId.mk
  listed : k.created = (List.range reads).flatMap k.splicesAt

/-! ## Frames -/

theorem splicesAt_eq (ho : k.ops[i]? = some o) : k.splicesAt i = o.pre ++ o.post := by
  rw [splicesAt, ho]
  rfl

/-- A change of operator `n` keeps what is said of inputs. -/
theorem InputSide.extends (h : InputSide g k i o o₁) (hE : Extends n k k') (hn : n < g.ops.length)
    (hins : o₂.inputs = o₁.inputs) (hpre : o₂.pre = o₁.pre) : InputSide g k' i o o₂ := by
  cases h with
  | kept h hins' hpre' => exact .kept h (hins.trans hins') (hpre.trans hpre')
  | shared h hbefore hmoved hins' hpre' =>
      exact .shared h hbefore (hE.keeps _ _ hmoved) (hins.trans hins') (hpre.trans hpre')
  | turned h hfirst hmoved hins' hpre' hbehind hturn =>
      exact .turned h hfirst (hE.keeps _ _ hmoved) (hins.trans hins') (hpre.trans hpre') hbehind
        (hE.ops (by omega) hturn)

theorem OutputSide.extends (h : OutputSide g k i o o₁) (hE : Extends n k k')
    (hn : n < g.ops.length) (houts : o₂.outputs = o₁.outputs) (hpost : o₂.post = o₁.post) :
    OutputSide g k' i o o₂ := by
  cases h with
  | kept h houts' hpost' => exact .kept h (houts.trans houts') (hpost.trans hpost')
  | turned h hmoved houts' hpost' hbehind hturn =>
      exact .turned h (hE.keeps _ _ hmoved) (houts.trans houts') (hpost.trans hpost') hbehind
        (hE.ops (by omega) hturn)

/-- Other operators than the one that is changed stay as they are. -/
theorem Retouched.extends {reads' writes' : Nat} (h : Retouched g k reads writes i o o₁)
    (hE : Extends n k k') (hn : n < g.ops.length) (hreads : i < reads' ↔ i < reads)
    (hwrites : i < writes' ↔ i < writes) : Retouched g k' reads' writes' i o o₁ where
  index := h.index
  name := h.name
  kind := h.kind
  read := fun hi => (h.read (hreads.mp hi)).extends hE hn rfl rfl
  unread := fun hi => h.unread (by omega)
  written := fun hi => (h.written (hwrites.mp hi)).extends hE hn rfl rfl
  unwritten := fun hi => h.unwritten (by omega)

theorem inserting_moved (hops : ∀ o ∈ g.ops, o.pre = [] ∧ o.post = []) (hcreated : g.created = []) :
    Inserting g 0 0 g.moved where
  ops := fun {i o} ho => ⟨o, ho, rfl, rfl, rfl, fun hi => absurd hi (Nat.not_lt_zero _),
    fun _ => ⟨rfl, (hops o (List.mem_of_getElem? ho)).1⟩, fun hi => absurd hi (Nat.not_lt_zero _),
    fun _ => ⟨rfl, (hops o (List.mem_of_getElem? ho)).2⟩⟩
  length := Nat.le_refl _
  added := by
    have hlen : g.moved.ops.length = g.ops.length := rfl
    rw [hlen, Nat.sub_self]
    exact hcreated
  listed := hcreated

/-- A change of operator `n` that puts the new operators `more` to its lists. -/
structure Puts (n : Nat) (more : List OpId) (k k' : Graph) : Prop where
  keeps : Extends n k k'
  length : k'.ops.length = k.ops.length + more.length
  created : k'.created = k.created ++ more
  fresh : more = (List.range' k.ops.length more.length).map OpId.mk
  splices : k'.splicesAt n = k.splicesAt n ++ more

theorem Puts.refl (n : Nat) (k : Graph) : Puts n [] k k :=
  ⟨.refl n k, rfl, (List.append_nil _).symm, rfl, (List.append_nil _).symm⟩

/-- Putting more to the lists of operator `n`, which is the last one listed. -/
theorem Inserting.put {writes' : Nat} {more : List OpId} (h : Inserting g reads writes k)
    (hput : Puts n more k k') (ho : g.ops[n]? = some o)
    (hop : ∃ o', k'.ops[n]? = some o' ∧ Retouched g k' (n + 1) writes' n o o')
    (hreads : ∀ i ≠ n, i < n + 1 ↔ i < reads) (hwrites : ∀ i ≠ n, i < writes' ↔ i < writes)
    (hlisted : k.created = (List.range n).flatMap k.splicesAt ++ k.splicesAt n) :
    Inserting g (n + 1) writes' k' where
  ops := by
    intro i q hq
    have hlt := (List.getElem?_eq_some_iff.mp ho).1
    by_cases hi : i = n
    · subst hi
      obtain rfl := Option.some.inj (ho.symm.trans hq)
      exact hop
    · obtain ⟨o', ho', hr⟩ := h.ops hq
      exact ⟨o', hput.keeps.ops hi ho', hr.extends hput.keeps hlt (hreads i hi) (hwrites i hi)⟩
  length := by
    rw [hput.length]
    exact Nat.le_add_right_of_le h.length
  added := by
    have hlen : k'.ops.length - g.ops.length = (k.ops.length - g.ops.length) + more.length := by
      have := h.length
      have := hput.length
      omega
    rw [hput.created, h.added, hlen, ← List.range'_append_1, List.map_append,
      Nat.add_sub_cancel' h.length, ← hput.fresh]
  listed := by
    -- operators before `n` keep their lists
    have hbefore : (List.range n).flatMap k'.splicesAt = (List.range n).flatMap k.splicesAt := by
      refine List.flatMap_congr fun i hi => ?_
      have hi := List.mem_range.mp hi
      have hlt := Nat.lt_trans hi (List.getElem?_eq_some_iff.mp ho).1
      obtain ⟨o', ho', -⟩ := h.ops (List.getElem?_eq_getElem hlt)
      rw [splicesAt_eq ho', splicesAt_eq (hput.keeps.ops (Nat.ne_of_lt hi) ho')]
    rw [List.range_succ, List.flatMap_append, List.flatMap_singleton, hbefore, hput.splices,
      hput.created, hlisted, List.append_assoc]

/-- The inputs of operator `n` are adapted. -/
theorem Inserting.read {more : List OpId} (h : Inserting g n n k) (hput : Puts n more k k')
    (ho : g.ops[n]? = some o) (hk : k.ops[n]? = some o₁) (hk' : k'.ops[n]? = some o₂)
    (hsame : o₂.index = o₁.index ∧ o₂.name = o₁.name ∧ o₂.kind = o₁.kind ∧
      o₂.outputs = o₁.outputs ∧ o₂.post = o₁.post) (hside : InputSide g k' n o o₂) :
    Inserting g (n + 1) n k' := by
  obtain ⟨q, hq, hr⟩ := h.ops ho
  obtain rfl := Option.some.inj (hq.symm.trans hk)
  obtain ⟨hindex, hname, hkind, houts, hpost⟩ := hsame
  obtain ⟨houts', hpost'⟩ := hr.unwritten (Nat.le_refl n)
  refine h.put hput ho ⟨o₂, hk', hindex.trans hr.index, hname.trans hr.name, hkind.trans hr.kind,
    fun _ => hside, fun hi => absurd hi (Nat.not_succ_le_self n),
    fun hi => absurd hi (Nat.lt_irrefl n), fun _ => ⟨houts.trans houts', hpost.trans hpost'⟩⟩
    (fun i hi => ?_) (fun _ _ => Iff.rfl) ?_
  · omega
  · rw [splicesAt_eq hq, (hr.unread (Nat.le_refl n)).2, hpost', List.append_nil, List.append_nil,
      h.listed]

/-- The outputs of operator `n` are adapted. -/
theorem Inserting.write {more : List OpId} (h : Inserting g (n + 1) n k) (hput : Puts n more k k')
    (ho : g.ops[n]? = some o) (hk : k.ops[n]? = some o₁) (hk' : k'.ops[n]? = some o₂)
    (hsame : o₂.index = o₁.index ∧ o₂.name = o₁.name ∧ o₂.kind = o₁.kind ∧
      o₂.inputs = o₁.inputs ∧ o₂.pre = o₁.pre) (hside : OutputSide g k' n o o₂) :
    Inserting g (n + 1) (n + 1) k' := by
  obtain ⟨q, hq, hr⟩ := h.ops ho
  obtain rfl := Option.some.inj (hq.symm.trans hk)
  obtain ⟨hindex, hname, hkind, hins, hpre⟩ := hsame
  have hlt := (List.getElem?_eq_some_iff.mp ho).1
  refine h.put hput ho ⟨o₂, hk', hindex.trans hr.index, hname.trans hr.name, hkind.trans hr.kind,
    fun hi => (hr.read hi).extends hput.keeps hlt hins hpre,
    fun hi => absurd hi (Nat.not_succ_le_self n), fun _ => hside,
    fun hi => absurd hi (Nat.not_succ_le_self n)⟩ (fun _ _ => Iff.rfl) (fun i hi => ?_) ?_
  · omega
  · rw [h.listed, List.range_succ, List.flatMap_append, List.flatMap_singleton]

/-! ## One splice -/

theorem inputSpliced_created (k : Graph) (op : OpId) (operand : TensorId) (t : Tensor)
    (l : Layout) : (k.inputSpliced op operand t l).created = k.created ++ [⟨k.ops.length⟩] := by
  unfold inputSpliced withDerived
  dsimp only [transposedBefore, completing]
  split <;> rfl

theorem outputPreserved_created (k : Graph) (op : OpId) (operand : TensorId) (t : Tensor)
    (l : Layout) : (k.outputPreserved op operand t l).created = k.created ++ [⟨k.ops.length⟩] := by
  unfold outputPreserved withDerived
  dsimp only [transposedAfter, completing]
  split <;> rfl

/-- A new transpose is put to the lists of the operator that is spliced. -/
theorem puts_one {f : Operator → Operator} {q : Operator} (ho : k.ops[n]? = some o)
    (hkeeps : k.Keeps k') (hops : k'.ops = k.ops.modify n f ++ [q])
    (hcreated : k'.created = k.created ++ [⟨k.ops.length⟩])
    (hf : (f o).pre ++ (f o).post = o.pre ++ o.post ++ [⟨k.ops.length⟩]) :
    Puts n [⟨k.ops.length⟩] k k' where
  keeps := .of_modify [q] hkeeps hops
  length := by
    rw [hops]
    simp
  created := hcreated
  fresh := rfl
  splices := by
    have ho' : k'.ops[n]? = some (f o) := hops ▸ (getElem?_modify_concat ho f q).1
    rw [splicesAt_eq ho', splicesAt_eq ho, hf]

theorem puts_readingInstead (ho : k.ops[n]? = some o) (operand moved : TensorId) :
    Puts n [] k (k.readingInstead ⟨n⟩ operand moved) where
  keeps := .of_modify [] (keeps_readingInstead k ⟨n⟩ operand moved) (by rw [List.append_nil]; rfl)
  length := by simp [readingInstead]
  created := (List.append_nil _).symm
  fresh := rfl
  splices := by
    rw [splicesAt_eq (ops_readingInstead ho operand moved), splicesAt_eq ho, List.append_nil]
    rfl

/-! ## One operator -/

theorem ReshapeAt.readsTagged_unique (hat : g.ReshapeAt n o input output x y)
    {input' : TensorId} {x' : Tensor} (h : g.ReadsTagged n input' x' l) :
    input' = input ∧ x' = x ∧ x.layout = some l := by
  obtain ⟨o', output', y', hat', hl⟩ := h
  obtain ⟨rfl, -, rfl, -⟩ := hat.unique hat'
  exact ⟨rfl, rfl, hl⟩

theorem ReshapeAt.writesTagged_unique (hat : g.ReshapeAt n o input output x y)
    {output' : TensorId} {y' : Tensor} (h : g.WritesTagged n output' y' l) :
    output' = output ∧ y' = y ∧ y.layout = some l := by
  obtain ⟨o', input', x', hat', hl⟩ := h
  obtain ⟨-, rfl, -, rfl⟩ := hat.unique hat'
  exact ⟨rfl, rfl, hl⟩

/-- Adapting the input of reshape `n`. -/
theorem Inserting.adaptInput (h : Inserting g n n k) (hP : Populated g n n k) (hg : g.Named)
    (hvacant : g.Vacant) (hat : g.ReshapeAt n o input output x y) :
    Inserting g (n + 1) n (k.inputAdapted ⟨n⟩ input) := by
  obtain ⟨u, hu, -, hname, hlayout, -⟩ := hP.lookup_input hat.source
  obtain ⟨q, hq, hr⟩ := h.ops hat.op
  obtain ⟨hins, hpre⟩ := hr.unread (Nat.le_refl n)
  obtain ⟨houts, hpost⟩ := hr.unwritten (Nat.le_refl n)
  cases hl : x.layout with
  | none =>
      rw [inputAdapted_of_none hu (hlayout.trans hl)]
      refine h.read (.refl n k) hat.op hq hq ⟨rfl, rfl, rfl, rfl, rfl⟩ (.kept ?_ hins hpre)
      intro input' x' l' htag
      have := (hat.readsTagged_unique htag).2.2
      rw [hl] at this
      cases this
  | some l =>
      have htag : g.ReadsTagged n input x l := ⟨o, output, y, hat, hl⟩
      have hshare := hP.producerNamed?_isSome_iff hg hvacant hat.reshapes (by rw [hl]; rfl)
      rw [← hname] at hshare
      rw [inputAdapted_of_some hu (hlayout.trans hl), inputPreserved]
      cases hshared : producerNamed? k (synthesizedName "Transposed" u.name) with
      | some found =>
          obtain ⟨e, turn⟩ := found
          obtain ⟨v, hv, hvn⟩ :=
            lookup?_eq_some hP.named (producerNamed?_eq_some.mp hshared).choose_spec.1
          have hmoved : k.nameOf? e = some (synthesizedName "Transposed" x.name) := by
            rw [nameOf?, hv, Option.map_some, hvn, hname]
          refine h.read (puts_readingInstead hq input e) hat.op hq (ops_readingInstead hq input e)
            ⟨rfl, rfl, rfl, rfl, rfl⟩ (.shared htag (hshare.mp (by rw [hshared]; rfl))
              (keeps_readingInstead k ⟨n⟩ input e _ _ hmoved) ?_ hpre)
          rw [Operator.withInput, hins]
      | none =>
          have hops := inputSpliced_ops k ⟨n⟩ input u l
          have hmoved : (k.inputSpliced ⟨n⟩ input u l).nameOf?
              (k.withDerived u (synthesizedName "Transposed" u.name)).1 =
                some (synthesizedName "Transposed" x.name) := by
            rw [nameOf?_inputSpliced hP.named, hname]
          obtain ⟨hown, hturn⟩ := ops_inputSpliced hq input u l
          refine h.read (puts_one hq (keeps_inputSpliced k ⟨n⟩ input u l) hops
            (inputSpliced_created k ⟨n⟩ input u l) ?_) hat.op hq hown ⟨rfl, rfl, rfl, rfl, rfl⟩
            (.turned htag ?_ hmoved ?_ ?_ h.length (by rw [← hname]; exact hturn))
          · simp [Operator.addPre, Operator.withInput, hpre, hpost]
          · intro hbefore
            have := hshare.mpr hbefore
            rw [hshared] at this
            cases this
          · rw [Operator.addPre, Operator.withInput, hins]
          · simp [Operator.addPre, Operator.withInput, hpre]

/-- Adapting the output of reshape `n`. -/
theorem Inserting.adaptOutput (h : Inserting g (n + 1) n k) (hP : Populated g (n + 1) n k)
    (hat : g.ReshapeAt n o input output x y) :
    Inserting g (n + 1) (n + 1) (k.outputAdapted ⟨n⟩ output) := by
  obtain ⟨u, hu, -, hname, hlayout, -⟩ := hP.lookup_input hat.target
  obtain ⟨q, hq, hr⟩ := h.ops hat.op
  obtain ⟨houts, hpost⟩ := hr.unwritten (Nat.le_refl n)
  cases hl : y.layout with
  | none =>
      rw [outputAdapted_of_none hu (hlayout.trans hl)]
      refine h.write (.refl n k) hat.op hq hq ⟨rfl, rfl, rfl, rfl, rfl⟩ (.kept ?_ houts hpost)
      intro output' y' l' htag
      have := (hat.writesTagged_unique htag).2.2
      rw [hl] at this
      cases this
  | some l =>
      rw [outputAdapted_of_some hu (hlayout.trans hl)]
      have hops := outputPreserved_ops k ⟨n⟩ output u l
      have hmoved : (k.outputPreserved ⟨n⟩ output u l).nameOf?
          (k.withDerived u (synthesizedName "ToTranspose" u.name)).1 =
            some (synthesizedName "ToTranspose" y.name) := by
        rw [nameOf?_outputPreserved hP.named, hname]
      obtain ⟨hown, hturn⟩ := ops_outputPreserved hq output u l
      refine h.write (puts_one hq (keeps_outputPreserved k ⟨n⟩ output u l) hops
        (outputPreserved_created k ⟨n⟩ output u l) ?_) hat.op hq hown ⟨rfl, rfl, rfl, rfl, rfl⟩
        (.turned ⟨o, input, x, hat, hl⟩ hmoved ?_ ?_ h.length (by rw [← hname]; exact hturn))
      · simp [Operator.addPost, Operator.withOutput, List.append_assoc]
      · rw [Operator.addPost, Operator.withOutput, houts]
      · simp [Operator.addPost, Operator.withOutput, hpost]

/-- An operator that is no reshape keeps its slots. -/
theorem Inserting.next (h : Inserting g n n k) (ho : g.ops[n]? = some o)
    (hno : ∀ x y, ¬g.Reshapes n x y) : Inserting g (n + 1) (n + 1) k := by
  obtain ⟨q, hq, hr⟩ := h.ops ho
  obtain ⟨hins, hpre⟩ := hr.unread (Nat.le_refl n)
  obtain ⟨houts, hpost⟩ := hr.unwritten (Nat.le_refl n)
  refine (h.read (.refl n k) ho hq hq ⟨rfl, rfl, rfl, rfl, rfl⟩ (.kept ?_ hins hpre)).write
    (.refl n k) ho hq hq ⟨rfl, rfl, rfl, rfl, rfl⟩ (.kept ?_ houts hpost)
  · rintro input x l ⟨o', output, y, hat, -⟩
    exact hno x y hat.reshapes
  · rintro output y l ⟨o', input, x, hat, -⟩
    exact hno x y hat.reshapes

/-- Marking an operator puts nothing to its lists. -/
theorem Inserting.marked (h : Inserting g (n + 1) (n + 1) k) (hn : n < g.ops.length) :
    Inserting g (n + 1) (n + 1) (k.marked n) := by
  have ho := List.getElem?_eq_getElem hn
  obtain ⟨q, hq, hr⟩ := h.ops ho
  have hE := extends_marked n k
  have hq' := ops_marked hq
  have hput : Puts n [] k (k.marked n) :=
    ⟨hE, by simp [Graph.marked], (List.append_nil _).symm, rfl, by
      rw [splicesAt_eq hq, splicesAt_eq hq', List.append_nil]⟩
  refine h.put hput ho ⟨_, hq', hr.index, hr.name, hr.kind,
    fun hi => (hr.read hi).extends hE hn rfl rfl, hr.unread,
    fun hi => (hr.written hi).extends hE hn rfl rfl, hr.unwritten⟩ (fun _ _ => Iff.rfl)
    (fun _ _ => Iff.rfl) ?_
  rw [h.listed, List.range_succ, List.flatMap_append, List.flatMap_singleton]

/-! ## The whole pass -/

section Intake

variable {s : Scope} {layouts : SortedMap ExplicitLayout}

/-- A graph that was read has nothing spliced in. -/
theorem Intake.unspliced (h : Intake s layouts g) : ∀ o ∈ g.ops, o.pre = [] ∧ o.post = [] := by
  intro o ho
  obtain ⟨i, hi⟩ := List.getElem?_of_mem ho
  obtain ⟨-, c, -, -, hstands⟩ := h.stands_at hi
  exact ⟨hstands.pre, hstands.post⟩

theorem Intake.inserting_adapted (h : Intake s layouts g) (hvacant : g.Vacant)
    (hclash : ¬g.Clash) : Inserting g g.ops.length g.ops.length g.adapted := by
  refine (h.adapted_induction
    (P := fun reads writes k => Populated g reads writes k ∧ Inserting g reads writes k) hclash
    ⟨populated_moved h.named, inserting_moved h.unspliced h.taken.created⟩ ?_ ?_ ?_ ?_).2
  · rintro n k hn hno ⟨hP, hI⟩
    refine ⟨hP.weaken (Nat.le_succ n) (Nat.le_succ n) fun hle hlt hr => ?_,
      hI.next (List.getElem?_eq_getElem hn) hno⟩
    obtain rfl := Nat.le_antisymm hle (Nat.le_of_lt_succ hlt)
    exact absurd hr (hno _ _)
  · rintro n o input output x y k hat - ⟨hP, hI⟩
    exact ⟨hP.adaptInput h.named hvacant hat.reshapes hat.source,
      hI.adaptInput hP h.named hvacant hat⟩
  · rintro n o input output x y k tagged hat - - ⟨hP, hI⟩
    exact ⟨hP.adaptOutput h.named hvacant hat.reshapes hat.target, hI.adaptOutput hP hat⟩
  · rintro n k hn ⟨hP, hI⟩
    exact ⟨hP.marked, hI.marked hn⟩

end Intake

/-- Where no source tensor has a reserved name, adapting a graph that was read
puts in the transposes that are needed, and no other.  The created operators
stand behind those of the source, and are, in this order, what the lists of the
source's operators hold.  Before an operator stands a transpose if the operator
is the first reshape to read an input with a layout; it turns this input back,
and all reshapes that read the input read what it writes.  Behind an operator
stands a transpose if the operator is a reshape that writes an output with a
layout; it turns what the reshape writes now.  All else is as it was read. -/
theorem transform_transposes {s : Scope} {layouts : SortedMap ExplicitLayout} {g g' : Graph}
    (h : IsIntake s layouts g) (hnames : s.Unreserved) (hrun : transform g = .ok () g') :
    g'.created = (List.range g.ops.length).flatMap g'.splicesAt ∧
      g'.created = (List.range' g.ops.length (g'.ops.length - g.ops.length)).map OpId.mk ∧
      ∀ i o, g.ops[i]? = some o → ∃ o', g'.ops[i]? = some o' ∧ o'.index = o.index ∧
        o'.name = o.name ∧ o'.kind = o.kind ∧ InputSide g g' i o o' ∧ OutputSide g g' i o o' := by
  have hends := h.intake.transform_ends
  rw [hrun] at hends
  obtain ⟨hclash, rfl⟩ := hends
  have hI := h.intake.inserting_adapted (h.intake.vacant hnames) hclash
  refine ⟨hI.listed, hI.added, fun i o ho => ?_⟩
  have hlt := (List.getElem?_eq_some_iff.mp ho).1
  obtain ⟨o', ho', hr⟩ := hI.ops ho
  exact ⟨o', ho', hr.index, hr.name, hr.kind, hr.read hlt, hr.written hlt⟩

/-- Two reshapes that read one input, of which the first also writes a tensor
with a layout. -/
def sharedInputSubgraph : Source.Subgraph where
  name := none
  tensors := [⟨"x", [1, 2], .float32, 0, none⟩, ⟨"s", [2], .int32, 1, none⟩,
    ⟨"y", [2, 1], .float32, 0, none⟩, ⟨"z", [2, 1], .float32, 0, none⟩]
  operators := [⟨0, [0, 1], [2], .none⟩, ⟨0, [0, 1], [3], .none⟩]
  inputs := [0]
  outputs := [2, 3]

def sharedInputScope : Scope where
  model := ⟨3, none, [.reshape], [[], [2, 0, 0, 0, 1, 0, 0, 0]], [sharedInputSubgraph]⟩
  subgraph := sharedInputSubgraph
  strict := true

def sharedInputLayouts : SortedMap ExplicitLayout :=
  .insert (.insert .empty "x" ⟨"AB", "BA"⟩) "y" ⟨"AB", "BA"⟩

/-- One transpose before the first reshape, one behind it. -/
theorem transform_transposes_sharedInput : ∃ g g',
    IsIntake sharedInputScope sharedInputLayouts g ∧ transform g = .ok () g' ∧
      g'.created = [⟨2⟩, ⟨3⟩] ∧ g'.splicesAt 0 = [⟨2⟩, ⟨3⟩] ∧ ∃ o o', g.ops[1]? = some o ∧
        g'.ops[1]? = some o' ∧ InputSide g g' 1 o o' ∧ OutputSide g g' 1 o o' := by
  have hnames : sharedInputScope.Unreserved := by
    unfold Scope.Unreserved
    decide
  obtain ⟨g, g', hg, hrun, hseen⟩ := exists_of_adaptedIntake? sharedInputScope sharedInputLayouts
    (fun r => decide (r.2.created = [⟨2⟩, ⟨3⟩] ∧ r.2.splicesAt 0 = [⟨2⟩, ⟨3⟩] ∧
      r.1.ops.length = 2)) (by decide +kernel)
  obtain ⟨hcreated, hsplices, hlength⟩ := of_decide_eq_true hseen
  obtain ⟨o, ho⟩ : ∃ o, g.ops[1]? = some o :=
    ⟨_, List.getElem?_eq_getElem (by rw [hlength]; decide)⟩
  obtain ⟨o', ho', -, -, -, hin, hout⟩ := (transform_transposes hg hnames hrun).2.2 1 o ho
  exact ⟨g, g', hg, hrun, hcreated, hsplices, o, o', ho, ho', hin, hout⟩

end Relayout.Graph
