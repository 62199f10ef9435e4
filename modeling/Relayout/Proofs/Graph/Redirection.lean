/-
# Which slot a rewrite acts on

A rewrite acts on the slot it is asked for exactly if no earlier slot of the
operator holds the same operand.  Otherwise it goes through and redirects the
earlier slot.  Turning the other slots that hold the operand is possible
afterwards, since the transpose is shared; lifting them never is, since the one
consumer edge that stood for all of them is gone.
-/
import Relayout.Proofs.Graph.Edges
import Relayout.Proofs.Graph.Slots

namespace Relayout.Graph

variable {g k : Graph} {id maker turn reshape : OpId} {slot : Nat}
  {operand moved new : TensorId} {o : Operator} {t u : Tensor} {l : Layout} {name : String}

/-- Operator `id`, which was `o`, reads `new` in the first slot that held
`operand`, and `maker` writes it. -/
structure Redirects (k : Graph) (id : OpId) (o : Operator) (operand : TensorId) (maker : OpId)
    (new : TensorId) : Prop where
  differs : new ≠ operand
  reads : ∃ o', k.ops[id.index]? = some o' ∧
    o'.inputs = o.inputs.set (o.inputs.idxOf operand) new ∧ o'.status = o.status
  writes : k.Operand .outputs maker new

/-- Operator `id`, which was `o`, reads what `maker` writes in one input slot,
and the same as before in all others. -/
def ActsOn (k : Graph) (id : OpId) (o : Operator) (slot : Nat) (maker : OpId) : Prop :=
  ∃ o' new, k.ops[id.index]? = some o' ∧ o'.inputs.length = o.inputs.length ∧
    o'.inputs[slot]? = some new ∧ k.Operand .outputs maker new ∧
      ∀ j, j ≠ slot → o'.inputs[j]? = o.inputs[j]?

theorem idxOf_le_of_getElem? (h : o.inputs[slot]? = some operand) :
    o.inputs.idxOf operand ≤ slot := by
  by_contra hlt
  obtain ⟨hslot, heq⟩ := List.getElem?_eq_some_iff.mp h
  have hbefore : slot < o.inputs.findIdx (· == operand) := by simpa [List.idxOf] using hlt
  have hne := List.not_of_lt_findIdx hbefore
  simp [heq] at hne

theorem getElem?_idxOf_of_mem (h : operand ∈ o.inputs) :
    o.inputs[o.inputs.idxOf operand]? = some operand :=
  List.getElem?_eq_some_iff.mpr ⟨List.idxOf_lt_length_of_mem h, List.getElem_idxOf _⟩

/-- A redirection acts on the slot of the operand if this is the first one that
holds it. -/
theorem Redirects.actsOn_iff (h : k.Redirects id o operand maker new)
    (hslot : o.inputs[slot]? = some operand) :
    k.ActsOn id o slot maker ↔ ∀ i < slot, o.inputs[i]? ≠ some operand := by
  obtain ⟨o', ho', hinputs, -⟩ := h.reads
  have hmem := List.mem_of_getElem? hslot
  have hfirst := getElem?_idxOf_of_mem hmem
  have hle := idxOf_le_of_getElem? hslot
  have hlt := List.idxOf_lt_length_of_mem hmem
  constructor
  · rintro ⟨o'', _, ho'', -, -, -, hother⟩ i hi heq
    obtain rfl := Option.some.inj (ho'.symm.trans ho'')
    have hne : o.inputs.idxOf operand ≠ slot := by
      have := idxOf_le_of_getElem? heq
      omega
    have hsame := hother _ hne
    rw [hinputs, List.getElem?_set_self hlt, hfirst] at hsame
    exact h.differs (Option.some.inj hsame)
  · intro hnone
    have heq : o.inputs.idxOf operand = slot :=
      Nat.le_antisymm hle (Nat.not_lt.mp fun hlt' => hnone _ hlt' hfirst)
    rw [heq] at hinputs hlt
    exact ⟨o', new, ho', by rw [hinputs, List.length_set], by
      rw [hinputs, List.getElem?_set_self hlt], h.writes, fun j hj => by
        rw [hinputs, List.getElem?_set_ne (Ne.symm hj)]⟩

/-! ## What the rewrites do -/

theorem redirects_redirecting (h : g.HoldsAt id slot o operand t) (hne : moved ≠ operand)
    (hmaker : g.Operand .outputs maker moved) :
    (g.redirecting id operand moved).Redirects id o operand maker moved where
  differs := hne
  reads := ⟨o.redirect operand moved, by simp [redirecting, h.op], rfl, rfl⟩
  writes := (operand_modify_of_eq (k := g) (f := (·.redirect operand moved)) rfl fun _ => rfl).mpr
    hmaker

theorem redirects_turnedBefore (ho : g.ops[id.index]? = some o) (hne : moved ≠ operand)
    (perm : List Nat) (name : String) :
    (g.turnedBefore id operand moved perm name).Redirects id o operand ⟨g.ops.length⟩ moved where
  differs := hne
  reads := ⟨_, (getElem?_modify_concat ho _ _).1, rfl, rfl⟩
  writes := (operand_iff (o := .turn perm name operand moved)
    (getElem?_modify_concat ho _ _).2).mpr (List.mem_singleton_self moved)

theorem redirects_liftedBefore (ho : g.ops[id.index]? = some o) (hne : moved ≠ operand)
    (values : TensorId) (name : String) :
    (g.liftedBefore id operand values moved name).Redirects id o operand ⟨g.ops.length⟩
      moved where
  differs := hne
  reads := ⟨_, (getElem?_modify_concat ho _ _).1, rfl, rfl⟩
  writes := (operand_iff (o := .lift name operand values moved)
    (getElem?_modify_concat ho _ _).2).mpr (List.mem_singleton_self moved)

theorem redirects_slotSpliced (hg : g.Named) (h : g.HoldsAt id slot o operand t) (l : Layout) :
    (g.slotSpliced id operand t l).Redirects id o operand ⟨g.ops.length⟩
      (g.withDerived t (synthesizedName "Transposed" t.name)).1 := by
  have hops : ((g.withDerived t (synthesizedName "Transposed" t.name)).2.completing
      (g.withDerived t (synthesizedName "Transposed" t.name)).1
      (permutedDims l.inverse.perm t.shape) l.inverse).ops = g.ops := withDerived_ops t _
  have := redirects_turnedBefore (by rw [hops]; exact h.op)
    (withDerived_ne hg h.tensor "Transposed") l.inverse.perm (synthesizedName "Transposed" t.name)
  rwa [hops] at this

theorem redirects_rankLifted (hg : g.Named) (h : g.HoldsAt id slot o operand t) (l : Layout) :
    (g.rankLifted id operand t l).Redirects id o operand ⟨g.ops.length⟩
      (g.liftTargets t l).1 := by
  have := redirects_liftedBefore (g := (g.liftTargets t l).2.2)
    (by rw [liftTargets_ops]; exact h.op)
    (withDerived_ne hg h.tensor "Reshape" : (g.liftTargets t l).1 ≠ operand)
    (g.liftTargets t l).2.1 (synthesizedName "Reshape" t.name)
  rwa [liftTargets_ops] at this

/-! ## Turning another slot -/

theorem producerNamed?_redirecting {id' : OpId} {name : String}
    (h : producerNamed? g name = some (moved, turn)) :
    producerNamed? (g.redirecting id' operand moved) name = some (moved, turn) := by
  obtain ⟨u, hlookup, hu, hhead⟩ := producerNamed?_eq_some.mp h
  obtain ⟨u', hu', -, hproducers⟩ := getElem?_readingInstead id' operand moved hu id'
  exact producerNamed?_eq_some.mpr ⟨u', hlookup, hu', by rw [hproducers, hhead]⟩

/-- The transpose of a tensor is found again under its name. -/
theorem producerNamed?_slotSpliced (hg : g.Named)
    (h : producerNamed? g (synthesizedName "Transposed" t.name) = none) :
    producerNamed? (g.slotSpliced id operand t l) (synthesizedName "Transposed" t.name) =
      some ((g.withDerived t (synthesizedName "Transposed" t.name)).1, ⟨g.ops.length⟩) := by
  -- the derived tensor, new or not, has no producer yet
  obtain ⟨u, hu, hnil⟩ : ∃ u, (g.withDerived t (synthesizedName "Transposed" t.name)).2.tensors[
      (g.withDerived t (synthesizedName "Transposed" t.name)).1.index]? = some u ∧
      u.producers = [] := by
    cases hlookup : g.lookup? (synthesizedName "Transposed" t.name) with
    | some e =>
        obtain ⟨u, hu, -⟩ := lookup?_eq_some hg hlookup
        refine ⟨u, by simpa [withDerived, hlookup] using hu, ?_⟩
        by_contra hne
        obtain ⟨p, hp⟩ := Option.isSome_iff_exists.mp (List.isSome_head?.mpr hne)
        rw [producerNamed?_eq_some.mpr ⟨u, hlookup, hu, hp⟩] at h
        cases h
    | none =>
        exact ⟨t.derived (synthesizedName "Transposed" t.name) ⟨g.tensors.length⟩,
          by simp [withDerived, hlookup], rfl⟩
  have hlookup : (g.slotSpliced id operand t l).lookup? (synthesizedName "Transposed" t.name) =
      some (g.withDerived t (synthesizedName "Transposed" t.name)).1 :=
    (lookup?_withDerived g t _ _).trans (if_pos rfl)
  have hops : (g.withDerived t (synthesizedName "Transposed" t.name)).2.ops = g.ops :=
    withDerived_ops t _
  obtain ⟨u', hu', hproducers⟩ : ∃ u', (g.slotSpliced id operand t l).tensors[
      (g.withDerived t (synthesizedName "Transposed" t.name)).1.index]? = some u' ∧
      u'.producers = [⟨g.ops.length⟩] := by
    rw [slotSpliced, turnedBefore, List.getElem?_modify_eq, List.getElem?_modify, completing,
      List.getElem?_modify_eq, hu]
    refine ⟨_, rfl, ?_⟩
    dsimp only
    rw [hops]
    split <;> simp [Tensor.addConsumer, Tensor.addProducer, Tensor.swapConsumer,
      Tensor.completed, hnil, attach]
  exact producerNamed?_eq_some.mpr ⟨u', hlookup, hu', by rw [hproducers]; rfl⟩

/-- The operand itself has other edges, and nothing else. -/
theorem getElem?_slotSpliced (hg : g.Named) (ht : g.tensors[operand.index]? = some t)
    (id : OpId) (l : Layout) :
    ∃ t', (g.slotSpliced id operand t l).tensors[operand.index]? = some t' ∧
      t'.bare = t.bare := by
  have hlookup : g.lookup? (synthesizedName "Transposed" t.name) ≠ some operand := fun hlookup => by
    obtain ⟨u, hu, hname⟩ := lookup?_eq_some hg hlookup
    obtain rfl := Option.some.inj (ht.symm.trans hu)
    exact synthesizedName_ne_self _ _ hname.symm
  obtain ⟨t', ht', hr, -⟩ := (inputSpliced_step g id operand t l).other ht hlookup
  exact ⟨t', ht', hr.bare⟩

theorem Redirects.status_eq (h : k.Redirects id o operand maker new) {o' : Operator}
    (ho' : k.ops[id.index]? = some o') : o'.status = o.status := by
  obtain ⟨o'', ho'', -, hstatus⟩ := h.reads
  obtain rfl := Option.some.inj (ho'.symm.trans ho'')
  exact hstatus

/-- Once an operand was turned, every other slot that holds it can be turned as
well, by the transpose that is there. -/
theorem preserveInput_again {o' : Operator} {t' : Tensor} {j : Nat}
    (h : k.HoldsAt id j o' operand t') (hparsed : o'.status = .parsed)
    (hbare : t'.bare = t.bare) (hl : t.layout = some l) (hrank : t.rank = l.rank)
    (hnamed : producerNamed? k (synthesizedName "Transposed" t.name) = some (moved, turn))
    (hturn : turn.index < k.ops.length) :
    ∃ k', preserveInput id j k = .ok turn k' := by
  have hname : t'.name = t.name := by simpa using congrArg Tensor.name hbare
  have hlayout : t'.layout = t.layout := by simpa using congrArg Tensor.layout hbare
  have hshape : t'.shape = t.shape := by simpa using congrArg Tensor.shape hbare
  refine ⟨_, preserveInput_shared h (by rw [hparsed]; rfl) (hlayout.trans hl) ?_
    (hname ▸ hnamed) hturn⟩
  rw [Tensor.rank, hshape]
  exact hrank

theorem HoldsAt.reader (h : g.HoldsAt id slot o operand t) (hw : g.Wired) : id ∈ t.consumers :=
  hw.mem_consumers h.op h.tensor h.mem

/-- The reader is no longer recorded at the operand it was led away from. -/
theorem HoldsAt.rankLifted_operand (h : g.HoldsAt id slot o operand t) (hg : g.Named)
    (hw : g.Wired) (l : Layout) :
    ∃ t', (g.rankLifted id operand t l).tensors[operand.index]? = some t' ∧
      t'.bare = t.bare ∧ id ∉ t'.consumers := by
  have hlookup : g.lookup? (synthesizedName "Reshape" t.name) ≠ some operand := fun hlookup => by
    obtain ⟨u, hu, hname⟩ := lookup?_eq_some hg hlookup
    obtain rfl := Option.some.inj (h.tensor.symm.trans hu)
    exact synthesizedName_ne_self _ _ hname.symm
  have ht := getElem?_liftTargets h.tensor t l
  rw [if_neg (by simpa using hlookup)] at ht
  have hne : (g.liftTargets t l).1.index ≠ operand.index := fun heq =>
    withDerived_ne hg h.tensor "Reshape" (TensorId.index_inj.mp heq)
  have hid : id ≠ ⟨g.ops.length⟩ := fun heq => by
    have := (List.getElem?_eq_some_iff.mp h.op).1
    rw [heq] at this
    exact Nat.lt_irrefl _ this
  have hnodup : t.consumers.Nodup :=
    hw.nodup_ends .inputs _ (List.mem_of_getElem? (getElem?_ends h.tensor .inputs))
  have hnew : ⟨g.ops.length⟩ ∉ t.consumers := fun hmem => by
    have := ((hw.edge_iff_operand .inputs ⟨g.ops.length⟩ operand).mp
      ((edge_iff h.tensor).mpr hmem)).lt
    simp [operands] at this
  have hgone : id ∉ (t.swapConsumer id ⟨g.ops.length⟩).consumers := fun hmem => by
    rcases (Listed.mem_swap_iff hnodup (h.reader hw) hnew).mp hmem with ⟨-, hne'⟩ | heq
    · exact hne' rfl
    · exact hid heq
  rw [rankLifted, liftedBefore, List.getElem?_modify_ne _ _ hne, List.getElem?_modify,
    List.getElem?_modify_eq, ht, liftTargets_ops]
  refine ⟨_, rfl, ?_, ?_⟩
  · dsimp only
    split <;> rfl
  · dsimp only
    split
    · exact fun hmem => (mem_attach.mp hmem).elim hgone hid
    · exact hgone

/-- A lift names the tensors that it calls for, and nothing anew. -/
theorem names_rankLifted (g : Graph) (reader : OpId) (operand : TensorId) (t : Tensor)
    (l : Layout) : (g.rankLifted reader operand t l).tensors.map Tensor.name =
      ((g.withDerived t (synthesizedName "Reshape" t.name)).2.withVector
        (synthesizedName "Reshape" t.name)
        ((widened l.rank t.shape).map Int.ofNat)).2.tensors.map Tensor.name := by
  unfold rankLifted liftedBefore
  dsimp only
  rw [names_modify, names_modify, names_modify]
  · exact names_completing _ _ _ _
  all_goals exact fun _ => rfl

theorem Named.rankLifted (h : g.Named) (reader : OpId) (operand : TensorId) (t : Tensor)
    (l : Layout) : (g.rankLifted reader operand t l).Named :=
  (named_withVector (named_withDerived h t _) _ _).of_names (names_rankLifted g reader operand t l)
    rfl

section Unmoved

variable (hg : g.Unmoved) (hnames : g.Named) (hw : g.Wired) (h : g.HoldsAt id slot o operand t)

include hg hnames hw h

/-- Turning an input redirects its operand, and leaves the other slots that hold
it to be turned. -/
theorem preserveInput_redirects (hrun : preserveInput id slot g = .ok turn k) :
    ∃ new, k.Redirects id o operand turn new ∧
      ∀ o' j, k.ops[id.index]? = some o' → o'.inputs[j]? = some operand →
        ∃ k', preserveInput id j k = .ok turn k' := by
  obtain ⟨o₁, operand₁, t₁, l, hat, -, hl, hrank⟩ := preserveInput_eq_ok hrun
  obtain ⟨rfl, rfl, rfl⟩ := hat.unique h
  have hparsed := h.parsed hg
  have hread : o.status.isParsed = true := by rw [hparsed]; rfl
  cases hnamed : producerNamed? g (synthesizedName "Transposed" t.name) with
  | some found =>
      obtain ⟨moved, turn'⟩ := found
      obtain ⟨u, hlookup, hu, hhead⟩ := producerNamed?_eq_some.mp hnamed
      have hmaker : g.Operand .outputs turn' moved :=
        (hw.edge_iff_operand .outputs turn' moved).mp ((edge_iff hu).mpr (List.mem_of_head? hhead))
      have hturn : turn'.index < g.ops.length := by simpa [operands] using hmaker.lt
      rw [preserveInput_shared h hread hl hrank hnamed hturn] at hrun
      cases hrun
      have hne : moved ≠ operand := by
        rintro rfl
        obtain ⟨v, hv, hname⟩ := lookup?_eq_some hnames hlookup
        obtain rfl := Option.some.inj (h.tensor.symm.trans hv)
        exact synthesizedName_ne_self _ _ hname.symm
      have hredirects := redirects_redirecting h hne hmaker
      refine ⟨moved, hredirects, fun o' j ho' hj => ?_⟩
      obtain ⟨t', ht', hr, -⟩ := getElem?_readingInstead id operand moved h.tensor id
      exact preserveInput_again ⟨ho', hj, ht'⟩ ((hredirects.status_eq ho').trans hparsed) hr.bare
        hl hrank (producerNamed?_redirecting hnamed) (by simpa [redirecting] using hturn)
  | none =>
      rw [preserveInput_spliced h hread hl hrank hnames hnamed (hg.not_occupied _) (h.reader hw)]
        at hrun
      cases hrun
      have hredirects := redirects_slotSpliced hnames h l
      refine ⟨_, hredirects, fun o' j ho' hj => ?_⟩
      obtain ⟨t', ht', hbare⟩ := getElem?_slotSpliced hnames h.tensor id l
      have hops : (g.withDerived t (synthesizedName "Transposed" t.name)).2.ops = g.ops :=
        withDerived_ops t _
      exact preserveInput_again ⟨ho', hj, ht'⟩ ((hredirects.status_eq ho').trans hparsed) hbare
        hl hrank (producerNamed?_slotSpliced hnames hnamed)
        (by simp [slotSpliced, turnedBefore, completing, hops])

/-- Lifting an input redirects its operand, and leaves no other slot that holds
it to be lifted: that breaks an invariant, unless the rank is turned down. -/
theorem liftRank_redirects (hrun : liftRank id slot l g = .ok reshape k) :
    ∃ new, k.Redirects id o operand reshape new ∧
      ∀ o' j l', k.ops[id.index]? = some o' → o'.inputs[j]? = some operand →
        ∃ k', liftRank id j l' k = .error (if t.rank < l'.rank then
          .invariant (.edgeNotAttached "consumer" id t.name)
        else .input (.validation t.name (.broadcastRank t.rank l'.rank))) k' := by
  obtain ⟨o₁, operand₁, t₁, hat, -, hrank, -, -, rfl, rfl⟩ := liftRank_eq_ok hnames hrun
  obtain ⟨rfl, rfl, rfl⟩ := hat.unique h
  have hredirects := redirects_rankLifted hnames h l
  refine ⟨_, hredirects, fun o' j l' ho' hj => ?_⟩
  obtain ⟨t', ht', hbare, hgone⟩ := h.rankLifted_operand hnames hw l
  have hname : t'.name = t.name := by simpa using congrArg Tensor.name hbare
  have hrank' : t'.rank = t.rank := by
    rw [Tensor.rank, Tensor.rank, ← t'.bare_shape, hbare, t.bare_shape]
  have hat' : HoldsAt _ id j o' operand t' := ⟨ho', hj, ht'⟩
  have hparsed := (hredirects.status_eq ho').trans (h.parsed hg)
  rw [← hname, ← hrank']
  by_cases hlt : t'.rank < l'.rank
  · rw [if_pos hlt]
    exact liftRank_unattached hat' hparsed (hnames.rankLifted id operand t l) hlt
      ((hg.rankLifted hnames id operand t l).not_occupied _) hgone
  · rw [if_neg hlt]
    exact ⟨_, liftRank_of_le hat' hparsed (Nat.not_lt.mp hlt)⟩

end Unmoved

theorem Intake.unmoved {s : Scope} {layouts : SortedMap ExplicitLayout} (h : Intake s layouts g) :
    g.Unmoved where
  tensors := fun t ht => h.taken.registry.status (t := t.bare) (List.mem_map_of_mem ht)
  ops := fun o ho => by
    obtain ⟨i, hi⟩ := List.getElem?_of_mem ho
    obtain ⟨_, _, -, -, hstands⟩ := h.stands_at hi
    exact hstands.status

/-! ## The slot that was asked for -/

/-- Both rewrites, asked of any slot of any operator of a graph that was read.
A run that goes through redirects the first slot that holds the operand, so it
acts on the slot it was asked for exactly if no earlier one holds the same.
Every slot that still holds it can be turned afterwards, by the same transpose;
none can be lifted. -/
theorem rewrite_actsOn_iff {s : Scope} {layouts : SortedMap ExplicitLayout}
    (h : IsIntake s layouts g) (hat : g.HoldsAt id slot o operand t) :
    (∀ turn k, preserveInput id slot g = .ok turn k →
      (∃ new, k.Redirects id o operand turn new) ∧
      (k.ActsOn id o slot turn ↔ ∀ i < slot, o.inputs[i]? ≠ some operand) ∧
      ∀ o' j, k.ops[id.index]? = some o' → o'.inputs[j]? = some operand →
        ∃ k', preserveInput id j k = .ok turn k') ∧
    ∀ l reshape k, liftRank id slot l g = .ok reshape k →
      (∃ new, k.Redirects id o operand reshape new) ∧
      (k.ActsOn id o slot reshape ↔ ∀ i < slot, o.inputs[i]? ≠ some operand) ∧
      ∀ o' j l', k.ops[id.index]? = some o' → o'.inputs[j]? = some operand →
        ∃ k', liftRank id j l' k = .error (if t.rank < l'.rank then
          .invariant (.edgeNotAttached "consumer" id t.name)
        else .input (.validation t.name (.broadcastRank t.rank l'.rank))) k' := by
  have hunmoved := h.intake.unmoved
  have hwired := h.intake.taken.wired
  refine ⟨fun turn k hrun => ?_, fun l reshape k hrun => ?_⟩
  · obtain ⟨new, hredirects, hagain⟩ :=
      preserveInput_redirects hunmoved h.intake.named hwired hat hrun
    exact ⟨⟨new, hredirects⟩, hredirects.actsOn_iff hat.slot, hagain⟩
  · obtain ⟨new, hredirects, hagain⟩ := liftRank_redirects hunmoved h.intake.named hwired hat hrun
    exact ⟨⟨new, hredirects⟩, hredirects.actsOn_iff hat.slot, hagain⟩

/-- A layout of three axes that exchanges the last two. -/
def exchangedLayout : Layout := ⟨['A', 'B', 'C'], ['A', 'C', 'B'], by decide, by decide⟩

/-- The second slot of a reshape that reads one tensor twice, and what both
rewrites of it do. -/
theorem twiceRead_rewrites : ∃ g o t turn k reshape k', IsIntake twiceReadScope twiceReadLayouts g ∧
    g.HoldsAt ⟨0⟩ 1 o ⟨0⟩ t ∧ o.inputs = [⟨0⟩, ⟨0⟩] ∧ t.rank = 2 ∧
      preserveInput ⟨0⟩ 1 g = .ok turn k ∧ liftRank ⟨0⟩ 1 exchangedLayout g = .ok reshape k' := by
  obtain ⟨g, _, hg, -, hseen⟩ := exists_of_intakeThen? twiceReadScope twiceReadLayouts (pure ())
    (fun r => decide (r.1.ops.map Operator.inputs = [[⟨0⟩, ⟨0⟩]]) &&
      decide (r.1.tensors.map Tensor.rank = [2, 1]) &&
      (state? (preserveInput ⟨0⟩ 1 r.1)).isSome &&
      (state? (liftRank ⟨0⟩ 1 exchangedLayout r.1)).isSome) (by decide +kernel)
  simp only [Bool.and_eq_true, decide_eq_true_eq] at hseen
  obtain ⟨⟨⟨hops, htensors⟩, hturn⟩, hlift⟩ := hseen
  obtain ⟨o, hos, hinputs⟩ := List.map_eq_singleton_iff.mp hops
  obtain ⟨t, ts, hts, hrank, -⟩ := List.map_eq_cons_iff.mp htensors
  have hok : ∀ {x : Step Graph OpId}, (state? (x g)).isSome = true → ∃ a k, x g = .ok a k := by
    intro x hx
    cases hrun : x g with
    | ok a k => exact ⟨a, k, rfl⟩
    | error e k =>
        rw [hrun] at hx
        cases hx
  obtain ⟨turn, k, hturn⟩ := hok hturn
  obtain ⟨reshape, k', hlift⟩ := hok hlift
  exact ⟨g, o, t, turn, k, reshape, k', hg,
    ⟨by rw [hos]; rfl, by rw [hinputs]; rfl, by rw [hts]; rfl⟩, hinputs, hrank, hturn, hlift⟩

theorem rewrite_actsOn_iff_twiceRead : ∃ g o t turn k reshape k',
    IsIntake twiceReadScope twiceReadLayouts g ∧ g.HoldsAt ⟨0⟩ 1 o ⟨0⟩ t ∧
      preserveInput ⟨0⟩ 1 g = .ok turn k ∧ ¬k.ActsOn ⟨0⟩ o 1 turn ∧
      liftRank ⟨0⟩ 1 exchangedLayout g = .ok reshape k' ∧ ¬k'.ActsOn ⟨0⟩ o 1 reshape := by
  obtain ⟨g, o, t, turn, k, reshape, k', hg, hat, hinputs, -, hturn, hlift⟩ := twiceRead_rewrites
  obtain ⟨hpreserve, hlifts⟩ := rewrite_actsOn_iff hg hat
  have hearlier : ¬∀ i < 1, o.inputs[i]? ≠ some ⟨0⟩ := fun hnone =>
    hnone 0 Nat.zero_lt_one (by rw [hinputs]; rfl)
  exact ⟨g, o, t, turn, k, reshape, k', hg, hat, hturn,
    fun hacts => hearlier ((hpreserve turn k hturn).2.1.mp hacts), hlift,
    fun hacts => hearlier ((hlifts _ reshape k' hlift).2.1.mp hacts)⟩

/-- A rewrite need not act on the slot it is asked for, nor leave another one
that can be lifted. -/
theorem rewrite_not_actsOn :
    ¬∀ (s : Scope) (layouts : SortedMap ExplicitLayout) (g : Graph) (id : OpId) (slot : Nat)
        (o : Operator) (operand : TensorId) (t : Tensor), IsIntake s layouts g →
      g.HoldsAt id slot o operand t →
        (∀ turn k, preserveInput id slot g = .ok turn k →
          k.ActsOn id o slot turn ∧
          ∀ o' j, k.ops[id.index]? = some o' → o'.inputs[j]? = some operand →
            ∀ v k', preserveInput id j k ≠ .error (.invariant v) k') ∧
        ∀ l reshape k, liftRank id slot l g = .ok reshape k →
          k.ActsOn id o slot reshape ∧
          ∀ o' j l', k.ops[id.index]? = some o' → o'.inputs[j]? = some operand →
            ∀ v k', liftRank id j l' k ≠ .error (.invariant v) k' := by
  intro hclaim
  obtain ⟨g, o, t, turn, k, -, -, hg, hat, hinputs, -, hturn, -⟩ := twiceRead_rewrites
  obtain ⟨new, hredirects, -⟩ :=
    preserveInput_redirects hg.intake.unmoved hg.intake.named hg.intake.taken.wired hat hturn
  have hacts := ((hclaim _ _ g ⟨0⟩ 1 o ⟨0⟩ t hg hat).1 turn k hturn).1
  exact (hredirects.actsOn_iff hat.slot).mp hacts 0 Nat.zero_lt_one (by rw [hinputs]; rfl)

end Relayout.Graph
