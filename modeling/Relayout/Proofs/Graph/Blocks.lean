/-
# The operators of an adapted graph

Every operator stands in a block, between the transposes that were spliced in
before and behind it.  Where the names that splices make up are vacant, the block
of an operator that was adapted is the lowering of its call (`Arranged`), and the
whole order of emission is one block after another.
-/
import Relayout.Proofs.Graph.Population
import Relayout.Proofs.Graph.Rendering
import Relayout.Proofs.Lowering

namespace Relayout.Graph

variable {g k k' : Graph} {n : Nat} {o o' : Operator} {calls : List Call}
  {tag : String → Option Layout}

/-- The nodes of some operators. -/
def nodesAt (k : Graph) (ps : List OpId) : List Target.Node :=
  (ps.filterMap k.opAt?).map k.nodeOf

/-- The nodes of an operator between its splices. -/
def blockOf (k : Graph) (o : Operator) : List Target.Node :=
  k.nodesAt o.pre ++ [k.nodeOf o] ++ k.nodesAt o.post

/-- A graph that differs from `k` in operator `n` and by what was put at the
end. -/
structure Extends (n : Nat) (k k' : Graph) : Prop where
  keeps : k.Keeps k'
  ops : ∀ {i q}, i ≠ n → k.ops[i]? = some q → k'.ops[i]? = some q

theorem Extends.refl (n : Nat) (k : Graph) : Extends n k k := ⟨.refl k, fun _ h => h⟩

theorem Extends.trans {k'' : Graph} (h : Extends n k k') (h' : Extends n k' k'') :
    Extends n k k'' :=
  ⟨h.keeps.trans h'.keeps, fun hi hq => h'.ops hi (h.ops hi hq)⟩

theorem Extends.of_modify {f : Operator → Operator} (more : List Operator) (hkeeps : k.Keeps k')
    (hops : k'.ops = k.ops.modify n f ++ more) : Extends n k k' := by
  refine ⟨hkeeps, fun {i q} hi hq => ?_⟩
  have hlt : i < (k.ops.modify n f).length := by
    simpa using (List.getElem?_eq_some_iff.mp hq).1
  rw [hops, List.getElem?_append_left hlt, List.getElem?_modify_ne _ _ (Ne.symm hi), hq]

/-- Names in range stay. -/
theorem Keeps.filterMap_nameOf? (h : k.Keeps k') {ids : List TensorId}
    (hids : ∀ id ∈ ids, id.index < k.tensors.length) :
    ids.filterMap k'.nameOf? = ids.filterMap k.nameOf? := by
  refine List.filterMap_congr fun id hid => ?_
  obtain ⟨t, ht⟩ : ∃ t, k.tensors[id.index]? = some t :=
    ⟨_, List.getElem?_eq_getElem (hids id hid)⟩
  have hname : k.nameOf? id = some t.name := by rw [nameOf?, ht, Option.map_some]
  rw [hname, h _ _ hname]

theorem Keeps.nodeOf_eq (h : k.Keeps k') {i : Nat} (hs : k.SoundOp i o) :
    k'.nodeOf o = k.nodeOf o := by
  rw [nodeOf, nodeOf, h.filterMap_nameOf? hs.inputs, h.filterMap_nameOf? hs.outputs]

theorem Extends.nodesAt_eq (h : Extends n k k') (hk : k.Sound) {ps : List OpId}
    (hps : ∀ p ∈ ps, p.index ≠ n ∧ p.index < k.ops.length) : k'.nodesAt ps = k.nodesAt ps := by
  induction ps with
  | nil => rfl
  | cons p ps ih =>
      have hp := hps p List.mem_cons_self
      have hq := List.getElem?_eq_getElem hp.2
      have hrest := ih fun q hq => hps q (List.mem_cons_of_mem _ hq)
      unfold nodesAt at hrest ⊢
      rw [List.filterMap_cons_some (show k'.opAt? p = some _ from h.ops hp.1 hq),
        List.filterMap_cons_some (show k.opAt? p = some _ from hq), List.map_cons, List.map_cons,
        hrest, h.keeps.nodeOf_eq (hk.ops hq)]

/-- The splices of an operator: operators behind the first `n` ones that have
no splices themselves. -/
def Leaves (k : Graph) (n : Nat) (o : Operator) : Prop :=
  ∀ p ∈ o.pre ++ o.post, n ≤ p.index ∧ ∃ q, k.ops[p.index]? = some q ∧ q.pre = [] ∧ q.post = []

theorem Leaves.extends {m : Nat} (h : k.Leaves m o) (hE : Extends n k k') (hn : n < m) :
    k'.Leaves m o := by
  intro p hp
  obtain ⟨hle, q, hq, hleaf⟩ := h p hp
  exact ⟨hle, q, hE.ops (by omega) hq, hleaf⟩

/-- Blocks of other operators stay. -/
theorem Extends.blockOf_eq (h : Extends n k k') (hk : k.Sound) {m : Nat} (hn : n < m)
    (hleaves : k.Leaves m o) {i : Nat} (hs : k.SoundOp i o) : k'.blockOf o = k.blockOf o := by
  have hps : ∀ p ∈ o.pre ++ o.post, p.index ≠ n ∧ p.index < k.ops.length := fun p hp => by
    obtain ⟨hle, q, hq, -⟩ := hleaves p hp
    exact ⟨by omega, (List.getElem?_eq_some_iff.mp hq).1⟩
  rw [blockOf, blockOf, h.keeps.nodeOf_eq hs,
    h.nodesAt_eq hk fun p hp => hps p (List.mem_append_left _ hp),
    h.nodesAt_eq hk fun p hp => hps p (List.mem_append_right _ hp)]

/-! ## Order of emission -/

/-- An operator whose splices are leaves is flattened to its block. -/
theorem flatten_of_leaves {m fuel : Nat} {id : OpId} (ho : k.ops[id.index]? = some o)
    (hleaves : k.Leaves m o) (hfuel : ∀ p ∈ o.pre ++ o.post, 0 < fuel) :
    flatten k.ops (fuel + 1) id = .ok (o.pre ++ [id] ++ o.post) := by
  have hmany : ∀ ps : List OpId, (∀ p ∈ ps, p ∈ o.pre ++ o.post) →
      ps.mapM (flatten k.ops fuel) = .ok (ps.map fun p => [p]) := by
    intro ps
    induction ps with
    | nil => exact fun _ => rfl
    | cons p ps ih =>
        intro hps
        have hmem := hps p List.mem_cons_self
        obtain ⟨-, q, hq, hpre, hpost⟩ := hleaves p hmem
        obtain ⟨fuel, rfl⟩ : ∃ fuel', fuel = fuel' + 1 :=
          ⟨fuel - 1, (Nat.sub_add_cancel (hfuel p hmem)).symm⟩
        have hp : flatten k.ops (fuel + 1) p = .ok [p] := by
          rw [flatten, entryAt_of_getElem? hq]
          simp only [bind, Except.bind, hpre, hpost, List.mapM_nil, pure, Except.pure]
          rfl
        rw [List.mapM_cons, hp, ih fun q hq => hps q (List.mem_cons_of_mem _ hq)]
        rfl
  rw [flatten, entryAt_of_getElem? ho]
  simp only [bind, Except.bind, hmany o.pre fun p hp => List.mem_append_left _ hp,
    hmany o.post fun p hp => List.mem_append_right _ hp, pure, Except.pure]
  rw [← List.flatMap_def, ← List.flatMap_def, List.flatMap_singleton', List.flatMap_singleton']

/-! ## Adapting one side -/

/-- What adapting the input of reshape `n` makes of it. -/
structure InputTurned (m n : Nat) (o : Operator) (read : String) (before : List Target.Node)
    (k k' : Graph) : Prop where
  extends' : Extends n k k'
  op : ∃ o', k'.ops[n]? = some o' ∧ o'.name = o.name ∧ o'.kind = o.kind ∧
    o'.outputs = o.outputs ∧ o'.post = o.post ∧ k'.Leaves m o' ∧
    o'.inputs.filterMap k'.nameOf? = (o.inputs.filterMap k.nameOf?).set 0 read ∧
    k'.nodesAt o'.pre = before

/-- What adapting the output of reshape `n` makes of it. -/
structure OutputTurned (m n : Nat) (o : Operator) (written : String) (behind : List Target.Node)
    (k k' : Graph) : Prop where
  extends' : Extends n k k'
  op : ∃ o', k'.ops[n]? = some o' ∧ o'.name = o.name ∧ o'.kind = o.kind ∧
    o'.inputs = o.inputs ∧ o'.pre = o.pre ∧ k'.Leaves m o' ∧
    o'.outputs.filterMap k'.nameOf? = (o.outputs.filterMap k.nameOf?).set 0 written ∧
    k'.nodesAt o'.post = behind

theorem filterMap_set_head {ids : List TensorId} {id e : TensorId} {name written : String}
    (hkeeps : k.Keeps k') (hids : ∀ id ∈ ids, id.index < k.tensors.length)
    (h0 : ids[0]? = some id) (hname : k.nameOf? id = some name)
    (he : k'.nameOf? e = some written) :
    (ids.set 0 e).filterMap k'.nameOf? = (ids.filterMap k.nameOf?).set 0 written := by
  cases ids with
  | nil => cases h0
  | cons a rest =>
      cases h0
      rw [List.set_cons_zero, List.filterMap_cons_some he, List.filterMap_cons_some hname,
        List.set_cons_zero,
        hkeeps.filterMap_nameOf? fun id hid => hids id (List.mem_cons_of_mem _ hid)]

theorem set_head_self {ids : List TensorId} {id : TensorId} {name : String}
    (h0 : ids[0]? = some id) (hname : k.nameOf? id = some name) :
    (ids.filterMap k.nameOf?).set 0 name = ids.filterMap k.nameOf? := by
  cases ids with
  | nil => cases h0
  | cons a rest =>
      cases h0
      rw [List.filterMap_cons_some hname, List.set_cons_zero]

/-- The node of a new transpose. -/
theorem nodesAt_turn {perm : List Nat} {name source target : String} {a b : TensorId}
    {p : OpId} (hp : k.ops[p.index]? = some (.turn perm name a b))
    (ha : k.nameOf? a = some source) (hb : k.nameOf? b = some target) :
    k.nodesAt [p] = [turnNode name perm source target] := by
  rw [nodesAt, List.filterMap_cons_some (show k.opAt? p = some _ from hp)]
  simp [nodeOf, Operator.turn, ha, hb, turnNode, Kind.name]

section OneSide

variable {x y u : Tensor} {l : Layout} {m : Nat} {input output : TensorId} {seen : List String}

theorem keeps_readingInstead (k : Graph) (op : OpId) (operand moved : TensorId) :
    k.Keeps (k.readingInstead op operand moved) :=
  keeps_of_names (names_readingInstead k op operand moved)

theorem keeps_inputSpliced (k : Graph) (op : OpId) (operand : TensorId) (t : Tensor)
    (l : Layout) : k.Keeps (k.inputSpliced op operand t l) :=
  (keeps_withDerived k t _).of_names (names_inputSpliced k op operand t l)

theorem keeps_outputPreserved (k : Graph) (op : OpId) (operand : TensorId) (t : Tensor)
    (l : Layout) : k.Keeps (k.outputPreserved op operand t l) :=
  (keeps_withDerived k t _).of_names (names_outputPreserved k op operand t l)

/-- A reshape that reads what another transpose has made. -/
theorem inputTurned_readingInstead {e : TensorId} {name read : String} (hk : k.Sound)
    (ho : k.ops[n]? = some o) (hpre : o.pre = []) (hpost : o.post = [])
    (h0 : o.inputs[0]? = some input) (hname : k.nameOf? input = some name)
    (he : k.nameOf? e = some read) :
    InputTurned m n o read [] k (k.readingInstead ⟨n⟩ input e) := by
  have hkeeps := keeps_readingInstead k ⟨n⟩ input e
  refine ⟨.of_modify [] hkeeps (by rw [List.append_nil]; rfl), o.withInput e,
    ops_readingInstead ho input e, rfl, rfl, rfl, rfl, ?_,
    filterMap_set_head hkeeps (hk.ops ho).inputs h0 hname (hkeeps _ _ he), ?_⟩
  · intro p hp
    rw [Operator.withInput, hpre, hpost] at hp
    cases hp
  · rw [Operator.withInput, hpre]
    rfl

/-- A reshape with a new transpose in front. -/
theorem inputTurned_inputSpliced (hk : k.Sound) (hnamed : k.Named) (ho : k.ops[n]? = some o)
    (hpre : o.pre = []) (hpost : o.post = []) (h0 : o.inputs[0]? = some input)
    (hu : k.tensors[input.index]? = some u) (l : Layout) (hm : m ≤ k.ops.length) :
    InputTurned m n o (synthesizedName "Transposed" u.name)
      [turnNode (synthesizedName "Transposed" u.name) l.inverse.perm u.name
        (synthesizedName "Transposed" u.name)] k (k.inputSpliced ⟨n⟩ input u l) := by
  have hname : k.nameOf? input = some u.name := by rw [nameOf?, hu, Option.map_some]
  have hkeeps := keeps_inputSpliced k ⟨n⟩ input u l
  have hmoved := nameOf?_inputSpliced hnamed ⟨n⟩ input u l
  obtain ⟨hown, hturn⟩ := ops_inputSpliced ho input u l
  refine ⟨.of_modify _ hkeeps (inputSpliced_ops k ⟨n⟩ input u l), _, hown, rfl, rfl, rfl, rfl, ?_,
    filterMap_set_head hkeeps (hk.ops ho).inputs h0 hname hmoved, ?_⟩
  · intro p hp
    have hp : p = ⟨k.ops.length⟩ := by
      simpa [Operator.addPre, Operator.withInput, hpre, hpost] using hp
    subst hp
    exact ⟨hm, _, hturn, rfl, rfl⟩
  · have hpres : ((o.withInput (k.withDerived u
        (synthesizedName "Transposed" u.name)).1).addPre ⟨k.ops.length⟩).pre =
        [⟨k.ops.length⟩] := by
      simp [Operator.addPre, Operator.withInput, hpre]
    rw [hpres]
    exact nodesAt_turn hturn (hkeeps _ _ hname) hmoved

/-- An operator with a new transpose behind. -/
theorem outputTurned_outputPreserved (hk : k.Sound) (hnamed : k.Named) (ho : k.ops[n]? = some o)
    (hpost : o.post = []) (hleaves : k.Leaves m o) (h0 : o.outputs[0]? = some output)
    (hu : k.tensors[output.index]? = some u) (l : Layout) (hm : m ≤ k.ops.length) (hn : n < m) :
    OutputTurned m n o (synthesizedName "ToTranspose" u.name)
      [turnNode (synthesizedName "Transpose" u.name) l.perm (synthesizedName "ToTranspose" u.name)
        u.name] k (k.outputPreserved ⟨n⟩ output u l) := by
  have hname : k.nameOf? output = some u.name := by rw [nameOf?, hu, Option.map_some]
  have hkeeps := keeps_outputPreserved k ⟨n⟩ output u l
  have hmoved := nameOf?_outputPreserved hnamed ⟨n⟩ output u l
  obtain ⟨hown, hturn⟩ := ops_outputPreserved ho output u l
  have hE : Extends n k (k.outputPreserved ⟨n⟩ output u l) :=
    .of_modify _ hkeeps (outputPreserved_ops k ⟨n⟩ output u l)
  refine ⟨hE, _, hown, rfl, rfl, rfl, rfl, ?_,
    filterMap_set_head hkeeps (hk.ops ho).outputs h0 hname hmoved, ?_⟩
  · intro p hp
    rcases List.mem_append.mp hp with hp | hp
    · exact hleaves.extends hE hn p (List.mem_append_left _ hp)
    · have hp : p = ⟨k.ops.length⟩ := by
        simpa [Operator.addPost, Operator.withOutput, hpost] using hp
      subst hp
      exact ⟨hm, _, hturn, rfl, rfl⟩
  · have hposts : ((o.withOutput (k.withDerived u
        (synthesizedName "ToTranspose" u.name)).1).addPost ⟨k.ops.length⟩).post =
        [⟨k.ops.length⟩] := by
      simp [Operator.addPost, Operator.withOutput, hpost]
    rw [hposts]
    exact nodesAt_turn hturn hmoved (hkeeps _ _ hname)

theorem Populated.inputTurned (h : Populated g n n k) (hk : k.Sound) (hg : g.Named)
    (hvacant : g.Vacant) (hr : g.Reshapes n x y) (ho : k.ops[n]? = some o) (hpre : o.pre = [])
    (hpost : o.post = []) (h0 : o.inputs[0]? = some input)
    (hx : g.tensors[input.index]? = some x) (htag : tag x.name = x.layout)
    (hseen : x.name ∈ seen ↔ ∃ i y, i < n ∧ g.Reshapes i x y) (hm : m ≤ k.ops.length) :
    InputTurned m n o (readName tag x.name) (turnBefore tag seen x.name) k
      (k.inputAdapted ⟨n⟩ input) := by
  obtain ⟨u, hu, -, hname, hlayout, -⟩ := h.lookup_input hx
  have hnu : k.nameOf? input = some x.name := by rw [nameOf?, hu, Option.map_some, hname]
  cases hl : x.layout with
  | none =>
      rw [inputAdapted_of_none hu (hlayout.trans hl), readName, turnBefore, htag, hl]
      refine ⟨.refl n k, o, ho, rfl, rfl, rfl, rfl, ?_, ?_, by rw [hpre]; rfl⟩
      · intro p hp
        rw [hpre, hpost] at hp
        cases hp
      · simpa using (set_head_self h0 hnu).symm
  | some l =>
      rw [inputAdapted_of_some hu (hlayout.trans hl), inputPreserved, readName, turnBefore, htag,
        hl, if_pos Option.isSome_some]
      dsimp only
      have hshare := h.producerNamed?_isSome_iff hg hvacant hr (by rw [hl]; rfl)
      rw [← hname] at hshare
      cases hshared : producerNamed? k (synthesizedName "Transposed" u.name) with
      | some found =>
          obtain ⟨e, turn⟩ := found
          rw [if_pos (hseen.mpr (hshare.mp (by rw [hshared]; rfl)))]
          obtain ⟨v, he, -, -⟩ := producerNamed?_eq_some.mp hshared
          have hne : k.nameOf? e = some (synthesizedName "Transposed" x.name) := by
            rw [(h.named _ _).mp he, hname]
          exact inputTurned_readingInstead hk ho hpre hpost h0 hnu hne
      | none =>
          rw [if_neg fun hmem => by
            have := hshare.mpr (hseen.mp hmem)
            rw [hshared] at this
            cases this]
          rw [← hname]
          exact inputTurned_inputSpliced hk h.named ho hpre hpost h0 hu l hm

theorem Populated.outputTurned (h : Populated g (n + 1) n k) (hk : k.Sound)
    (ho : k.ops[n]? = some o) (hpost : o.post = []) (hleaves : k.Leaves m o)
    (h0 : o.outputs[0]? = some output) (hy : g.tensors[output.index]? = some y)
    (htag : tag y.name = y.layout) (hm : m ≤ k.ops.length) (hn : n < m) :
    OutputTurned m n o (writtenName tag y.name) (turnAfter tag y.name) k
      (k.outputAdapted ⟨n⟩ output) := by
  obtain ⟨u, hu, -, hname, hlayout, -⟩ := h.lookup_input hy
  cases hl : y.layout with
  | none =>
      have hnu : k.nameOf? output = some y.name := by rw [nameOf?, hu, Option.map_some, hname]
      rw [outputAdapted_of_none hu (hlayout.trans hl), writtenName, turnAfter, htag, hl]
      refine ⟨.refl n k, o, ho, rfl, rfl, rfl, rfl, hleaves, ?_, by rw [hpost]; rfl⟩
      simpa using (set_head_self h0 hnu).symm
  | some l =>
      rw [outputAdapted_of_some hu (hlayout.trans hl), writtenName, turnAfter, htag, hl,
        if_pos Option.isSome_some, ← hname]
      exact outputTurned_outputPreserved hk h.named ho hpost hleaves h0 hu l hm hn

end OneSide

end Relayout.Graph
