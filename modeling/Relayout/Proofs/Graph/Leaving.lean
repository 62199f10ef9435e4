/-
# What adapting leaves alone

Adapting was followed so far in graphs that were read and nothing else.  Here it
is any graph, with reshapes that lift ranks among the others, and less is said:
what adapting an operator does not touch.  A reshape of the source changes
itself, edges, and the tensors that stand behind transposes; one that lifts a
rank changes the data of its shape operand.  So whatever the names of the
transposes do not mention keeps its shape, its layout and how many operators
write it, and its data unless a lift has it for a shape.
-/
import Relayout.Proofs.Graph.Slots
import Relayout.Proofs.Graph.Frame

namespace Relayout

/-- A name of the tensors behind transposes. -/
def SplicedName (name : String) : Prop :=
  ∃ subject, name = synthesizedName "Transposed" subject ∨
    name = synthesizedName "ToTranspose" subject

/-- A tensor that keeps all but its data and the operators at its ends, and of
those how many write it. -/
structure Tensor.Kept (t u : Tensor) : Prop where
  name : u.name = t.name
  shape : u.shape = t.shape
  layout : u.layout = t.layout
  producers : u.producers.length = t.producers.length

theorem Tensor.Kept.refl (t : Tensor) : t.Kept t := ⟨rfl, rfl, rfl, rfl⟩

theorem Tensor.Kept.trans {t u v : Tensor} (h : t.Kept u) (h' : u.Kept v) : t.Kept v :=
  ⟨h'.name.trans h.name, h'.shape.trans h.shape, h'.layout.trans h.layout,
    h'.producers.trans h.producers⟩

theorem Tensor.kept_of_bare {t u : Tensor} (hbare : u.bare = t.bare)
    (hproducers : u.producers.length = t.producers.length) : t.Kept u where
  name := (congrArg Tensor.name hbare :)
  shape := (congrArg Tensor.shape hbare :)
  layout := (congrArg Tensor.layout hbare :)
  producers := hproducers

/-- A reshape that lifts a rank, and has tensor `x` for its shape. -/
def Operator.Reorders (o : Operator) (x : TensorId) : Prop :=
  o.kind = .reshape true ∧ o.inputs[1]? = some x

namespace Graph

variable {g k k' : Graph} {id turn : OpId} {slot i : Nat} {operand moved x y : TensorId}
  {o : Operator} {t u : Tensor} {l : Layout} {is js : List Nat}

/-! ## Turns that went through -/

theorem transposeBefore_unattached {reader : OpId} (ht : g.tensors[operand.index]? = some t)
    (hreader : reader ∉ t.consumers) (moved : TensorId) (perm : List Nat) (name : String) :
    ∃ g', transposeBefore reader operand moved perm name g =
      .error (.invariant (.edgeNotAttached "consumer" reader t.name)) g' :=
  synthesize_error ht (c := fun turn => (·.replaceConsumer reader turn))
    (by rw [Tensor.replaceConsumer, List.idxOf?_eq_none_iff.mpr hreader])

theorem transposeAfter_unattached {writer : OpId} (ht : g.tensors[operand.index]? = some t)
    (hwriter : writer ∉ t.producers) (moved : TensorId) (perm : List Nat) (name : String) :
    ∃ g', transposeAfter writer operand moved perm name g =
      .error (.invariant (.edgeNotAttached "producer" writer t.name)) g' :=
  synthesize_error ht (c := fun turn => (·.replaceProducer writer turn))
    (by rw [Tensor.replaceProducer, List.idxOf?_eq_none_iff.mpr hwriter])

/-- Where the tensor behind a transpose was derived and completed, its name was
not occupied. -/
theorem deriveComplete_eq_ok {α : Type} {rest : TensorId → Step Graph α} {name : String}
    {shape : List Nat} {a : α} (hg : g.Named) (ht : g.tensors[operand.index]? = some t)
    (h : (do
      let moved ← derive operand name false
      complete moved shape l
      rest moved) g = .ok a k) :
    ¬g.Occupied name ∧ rest (g.withDerived t name).1
      ((g.withDerived t name).2.completing (g.withDerived t name).1 shape l) = .ok a k := by
  obtain ⟨u, hu, hoccupied⟩ := getElem?_withDerived hg t name
  rw [Step.run_bind_of_ok (derive_run ht name)] at h
  cases hopen : u.status.isTransformed with
  | true =>
      obtain ⟨v, g', hrun⟩ := complete_error hu hopen shape l
      rw [Step.run_bind_of_error hrun] at h
      cases h
  | false =>
      rw [Step.run_bind_of_ok (complete_run hu hopen shape l)] at h
      refine ⟨fun hmoved => ?_, h⟩
      rw [hoccupied.mpr hmoved] at hopen
      cases hopen

/-- What a turn of an input did. -/
theorem preserveInput_graph (hg : g.Named) (h : preserveInput id slot g = .ok turn k) :
    ∃ o operand t l, g.HoldsAt id slot o operand t ∧ t.layout = some l ∧
      ((∃ moved, k = g.redirecting id operand moved) ∨ k = g.slotSpliced id operand t l) := by
  obtain ⟨o, operand, t, l, hat, hparsed, hl, hrank⟩ := preserveInput_eq_ok h
  refine ⟨o, operand, t, l, hat, hl, ?_⟩
  have hstart := preserveInput_start hat hparsed hl hrank
  rw [h] at hstart
  cases hnamed : producerNamed? g (synthesizedName "Transposed" t.name) with
  | some found =>
      obtain ⟨existing, turn'⟩ := found
      obtain ⟨u, -, hu, -⟩ := producerNamed?_eq_some.mp hnamed
      rw [hnamed] at hstart
      dsimp only at hstart
      rw [Step.run_bind_of_ok
        (readInstead_eq hat.op hat.mem hat.lt (List.getElem?_eq_some_iff.mp hu).1)] at hstart
      obtain ⟨_, _, hop, hreturn⟩ := Step.bind_eq_ok.mp hstart.symm
      obtain ⟨-, rfl⟩ := op_eq_ok.mp hop
      cases hreturn
      exact Or.inl ⟨existing, rfl⟩
  | none =>
      rw [hnamed] at hstart
      obtain ⟨hfree, hrun⟩ := deriveComplete_eq_ok hg hat.tensor hstart.symm
      have hreader : id ∈ t.consumers := by
        by_contra hnot
        obtain ⟨t', ht', hconsumers, -⟩ := getElem?_completing hat.tensor t
          (synthesizedName "Transposed" t.name) (permutedDims l.inverse.perm t.shape) l.inverse
        obtain ⟨g', herror⟩ := transposeBefore_unattached ht' (hconsumers ▸ hnot)
          (g.withDerived t (synthesizedName "Transposed" t.name)).1 l.inverse.perm
          (synthesizedName "Transposed" t.name)
        rw [herror] at hrun
        cases hrun
      rw [preserveInput_spliced hat hparsed hl hrank hg hnamed hfree hreader] at h
      cases h
      exact Or.inr rfl

/-- What a turn of the first output did. -/
theorem preserveOutput_graph (hg : g.Named) (h : preserveOutput id 0 g = .ok turn k) :
    ∃ operand t l, k = g.outputPreserved id operand t l := by
  have hwhole := h
  unfold preserveOutput at h
  obtain ⟨o, operand, t, ho, hparsed, hslot, ht, h⟩ := opening_eq_ok h
  obtain ⟨l, _, hlayout, h⟩ := Step.bind_eq_ok.mp h
  obtain ⟨hl, rfl⟩ := layoutOf_eq_ok.mp hlayout
  obtain ⟨shape, _, hshape, h⟩ := Step.bind_eq_ok.mp h
  obtain ⟨-, rfl⟩ := Step.liftViolation_eq_ok.mp hshape
  have hwriter : id ∈ t.producers := by
    by_contra hnot
    obtain ⟨-, hrun⟩ := deriveComplete_eq_ok hg ht h
    obtain ⟨t', ht', -, hproducers⟩ := getElem?_completing ht t
      (synthesizedName "ToTranspose" t.name) shape l.inverse
    obtain ⟨g', herror⟩ := transposeAfter_unattached ht' (hproducers ▸ hnot)
      (g.withDerived t (synthesizedName "ToTranspose" t.name)).1 l.perm
      (synthesizedName "Transpose" t.name)
    rw [herror] at hrun
    cases hrun
  have hends := preserveOutput_ends hg ho hparsed hslot ht hl hwriter
  rw [hwhole] at hends
  exact ⟨operand, t, l, hends.2⟩

/-! ## One operator of the source -/

/-- A place that holds what a place of another list holds is there. -/
theorem lt_of_getElem?_eq {α : Type} {xs ys : List α} {j : Nat} (h : ys[j]? = xs[j]?)
    (hlt : j < xs.length) : j < ys.length := by
  rw [List.getElem?_eq_getElem hlt] at h
  exact (List.getElem?_eq_some_iff.mp h).1

/-- Of `g`, the graph `k` has all operators but number `i`, and all tensors but
for their edges and those behind transposes. -/
structure Aside (i : Nat) (g k : Graph) : Prop where
  op : ∀ {j : Nat}, j ≠ i → j < g.ops.length → k.ops[j]? = g.ops[j]?
  tensor : ∀ {x : Nat} {t : Tensor}, g.tensors[x]? = some t → ¬SplicedName t.name →
    ∃ u, k.tensors[x]? = some u ∧ u.bare = t.bare ∧ u.producers.length = t.producers.length
  named : g.Named → k.Named

theorem Aside.refl (i : Nat) (g : Graph) : g.Aside i g :=
  ⟨fun _ _ => rfl, fun ht _ => ⟨_, ht, rfl, rfl⟩, id⟩

theorem Aside.trans (h : Aside i g k) (h' : Aside i k k') : Aside i g k' where
  op := fun {j} hj hlt => by
    have hk := h.op hj hlt
    rw [h'.op hj (lt_of_getElem?_eq hk hlt), hk]
  tensor := fun ht hname => by
    obtain ⟨u, hu, hbare, hproducers⟩ := h.tensor ht hname
    have hname' : u.name = _ := (Tensor.kept_of_bare hbare hproducers).name
    obtain ⟨v, hv, hbare', hproducers'⟩ := h'.tensor hu (hname' ▸ hname)
    exact ⟨v, hv, hbare'.trans hbare, hproducers'.trans hproducers⟩
  named := fun hg => h'.named (h.named hg)

theorem getElem?_modify_append {α : Type} {xs ys zs : List α} {f : α → α} {j : Nat}
    (h : zs = xs.modify i f ++ ys) (hj : j ≠ i) (hlt : j < xs.length) : zs[j]? = xs[j]? := by
  rw [h, List.getElem?_append_left (by simpa using hlt), List.getElem?_modify_ne _ _ hj.symm]

theorem aside_redirecting (g : Graph) (i : Nat) (operand moved : TensorId) :
    g.Aside i (g.redirecting ⟨i⟩ operand moved) where
  op := getElem?_modify_append (List.append_nil _).symm
  tensor := fun ht _ => by
    obtain ⟨u, hu, hrewired, hproducers⟩ := getElem?_readingInstead ⟨i⟩ operand moved ht ⟨i⟩
    exact ⟨u, hu, hrewired.bare, congrArg List.length hproducers⟩
  named := fun hg => hg.readingInstead ⟨i⟩ operand moved

/-- A splice leaves what has not the name that it is for. -/
theorem SpliceStep.tensor {side : Side} {op : OpId} {name : String} {shape : List Nat}
    (h : g.SpliceStep side op t name shape l k) (hg : g.Named) (hname : SplicedName name) {j : Nat}
    (hu : g.tensors[j]? = some u) (hother : ¬SplicedName u.name) :
    ∃ v, k.tensors[j]? = some v ∧ v.bare = u.bare ∧ v.producers.length = u.producers.length := by
  have hmiss : g.lookup? name ≠ some ⟨j⟩ := fun hlookup => by
    obtain ⟨u', hu', hnamed⟩ := lookup?_eq_some hg hlookup
    obtain rfl := Option.some.inj (hu.symm.trans hu')
    exact hother (hnamed ▸ hname)
  obtain ⟨v, hv, hrewired, hproducers⟩ := h.other hu hmiss
  exact ⟨v, hv, hrewired.bare, hproducers⟩

theorem aside_slotSpliced (hg : g.Named) (i : Nat) (operand : TensorId) (t : Tensor)
    (l : Layout) : g.Aside i (g.slotSpliced ⟨i⟩ operand t l) where
  op := fun hj hlt => by
    have hops := withDerived_ops (g := g) t (synthesizedName "Transposed" t.name)
    rw [← hops] at hlt ⊢
    exact getElem?_modify_append rfl hj hlt
  tensor := (inputSpliced_step g ⟨i⟩ operand t l).tensor hg ⟨t.name, Or.inl rfl⟩
  named := (inputSpliced_step g ⟨i⟩ operand t l).named

theorem aside_outputPreserved (hg : g.Named) (i : Nat) (operand : TensorId) (t : Tensor)
    (l : Layout) : g.Aside i (g.outputPreserved ⟨i⟩ operand t l) where
  op := fun hj hlt => by
    have hops := withDerived_ops (g := g) t (synthesizedName "ToTranspose" t.name)
    rw [← hops] at hlt ⊢
    exact getElem?_modify_append rfl hj hlt
  tensor := (outputPreserved_step g ⟨i⟩ operand t l).tensor hg ⟨t.name, Or.inr rfl⟩
  named := (outputPreserved_step g ⟨i⟩ operand t l).named

theorem adaptInput_aside (hg : g.Named) (h : adaptInput ⟨i⟩ x g = .ok () k) : g.Aside i k := by
  unfold adaptInput at h
  obtain ⟨t, _, htensor, h⟩ := Step.bind_eq_ok.mp h
  obtain ⟨-, rfl⟩ := tensor_eq_ok.mp htensor
  split at h
  · obtain ⟨turn, k', hturn, hreturn⟩ := Step.bind_eq_ok.mp h
    cases hreturn
    obtain ⟨-, operand, u, l, -, -, ⟨moved, rfl⟩ | rfl⟩ := preserveInput_graph hg hturn
    · exact aside_redirecting g i operand moved
    · exact aside_slotSpliced hg i operand u l
  · cases h
    exact .refl i g

theorem adaptOutput_aside (hg : g.Named) (h : adaptOutput ⟨i⟩ x g = .ok () k) : g.Aside i k := by
  unfold adaptOutput at h
  obtain ⟨t, _, htensor, h⟩ := Step.bind_eq_ok.mp h
  obtain ⟨-, rfl⟩ := tensor_eq_ok.mp htensor
  split at h
  · obtain ⟨turn, k', hturn, hreturn⟩ := Step.bind_eq_ok.mp h
    cases hreturn
    obtain ⟨operand, u, l, rfl⟩ := preserveOutput_graph hg hturn
    exact aside_outputPreserved hg i operand u l
  · cases h
    exact .refl i g

/-! ## One operator -/

/-- A reshape that lifts a rank, adapted: its shape operand was moved along. -/
theorem adaptLift_eq_ok (h : adaptLift o x y g = .ok () k) :
    ∃ u l w t data moved, g.tensors[y.index]? = some u ∧ u.layout = some l ∧
      o.inputs[1]? = some w ∧ g.tensors[w.index]? = some t ∧ t.data = some data ∧
      data.reorder l = .ok moved ∧
      k = { g with tensors := g.tensors.modify w.index fun t => { t with data := some moved } } := by
  unfold adaptLift at h
  obtain ⟨_, _, hinput, h⟩ := Step.bind_eq_ok.mp h
  obtain ⟨-, rfl⟩ := tensor_eq_ok.mp hinput
  obtain ⟨u, _, houtput, h⟩ := Step.bind_eq_ok.mp h
  obtain ⟨hu, rfl⟩ := tensor_eq_ok.mp houtput
  obtain ⟨_, _, hrequire, h⟩ := Step.bind_eq_ok.mp h
  obtain ⟨-, rfl⟩ := require_eq_ok.mp hrequire
  obtain ⟨l, _, hlayout, h⟩ := Step.bind_eq_ok.mp h
  obtain ⟨hl, rfl⟩ := layoutOf_eq_ok.mp hlayout
  obtain ⟨w, _, hshape, h⟩ := Step.bind_eq_ok.mp h
  obtain ⟨hw, rfl⟩ := entryAt_eq_ok.mp hshape
  obtain ⟨t, _, htensor, h⟩ := Step.bind_eq_ok.mp h
  obtain ⟨ht, rfl⟩ := tensor_eq_ok.mp htensor
  cases hdata : t.data with
  | none =>
      rw [hdata] at h
      cases h
  | some data =>
      rw [hdata] at h
      obtain ⟨moved, _, hreorder, h⟩ := Step.bind_eq_ok.mp h
      obtain ⟨hmoved, rfl⟩ := Step.liftViolation_eq_ok.mp hreorder
      rw [run_changeTensor (List.getElem?_eq_some_iff.mp ht).1] at h
      cases h
      exact ⟨u, l, w, t, data, moved, hu, hl, hw, ht, hdata, hmoved, rfl⟩

/-- Of `g`, the graph `k` has all operators but those in `is`, the reshapes that
lift ranks with their operands, and all tensors but for their edges, those
behind transposes, and the data of shapes. -/
structure Spares (g : Graph) (is : List Nat) (k : Graph) : Prop where
  op : ∀ {j : Nat}, j ∉ is → j < g.ops.length → k.ops[j]? = g.ops[j]?
  lift : ∀ {j : Nat} {o : Operator}, g.ops[j]? = some o → o.kind = .reshape true →
    ∃ status, k.ops[j]? = some { o with status := status }
  tensor : ∀ {x : Nat} {t : Tensor}, g.tensors[x]? = some t → ¬SplicedName t.name →
    ∃ u, k.tensors[x]? = some u ∧ t.Kept u ∧
      (u.data = t.data ∨ t.data.isSome = true ∧ ∃ i ∈ is, ∃ o, g.ops[i]? = some o ∧ o.Reorders ⟨x⟩)
  named : g.Named → k.Named

theorem Spares.refl (g : Graph) (is : List Nat) : g.Spares is g where
  op := fun _ _ => rfl
  lift := fun ho _ => ⟨_, ho⟩
  tensor := fun ht _ => ⟨_, ht, .refl _, Or.inl rfl⟩
  named := id

theorem Spares.trans (h : g.Spares is k) (h' : k.Spares js k')
    (hjs : ∀ j ∈ js, j ∉ is ∧ j < g.ops.length) : g.Spares (is ++ js) k' where
  op := fun {j} hj hlt => by
    obtain ⟨hi, hj⟩ := not_or.mp (mt List.mem_append.mpr hj)
    have hk := h.op hi hlt
    rw [h'.op hj (lt_of_getElem?_eq hk hlt), hk]
  lift := fun ho hkind => by
    obtain ⟨status, ho'⟩ := h.lift ho hkind
    obtain ⟨status', ho''⟩ := h'.lift ho' hkind
    exact ⟨status', ho''⟩
  tensor := fun ht hname => by
    obtain ⟨u, hu, hkept, hdata⟩ := h.tensor ht hname
    obtain ⟨v, hv, hkept', hdata'⟩ := h'.tensor hu (hkept.name ▸ hname)
    refine ⟨v, hv, hkept.trans hkept', ?_⟩
    rcases hdata with hdata | ⟨hsome, i, hi, hreorders⟩
    · rcases hdata' with hdata' | ⟨hsome, j, hj, o, ho, hreorders⟩
      · exact Or.inl (hdata'.trans hdata)
      · obtain ⟨hfresh, hlt⟩ := hjs j hj
        rw [h.op hfresh hlt] at ho
        exact Or.inr ⟨hdata ▸ hsome, j, List.mem_append_right _ hj, o, ho, hreorders⟩
    · exact Or.inr ⟨hsome, i, List.mem_append_left _ hi, hreorders⟩
  named := fun hg => h'.named (h.named hg)

/-- Data that no lift has for a shape stays. -/
theorem Spares.keeps (h : g.Spares is k) {x : TensorId} (ht : g.tensors[x.index]? = some t)
    (hname : ¬SplicedName t.name) (hnone : t.data.isSome = true →
      ∀ i ∈ is, ∀ o, g.ops[i]? = some o → ¬o.Reorders x) :
    ∃ u, k.tensors[x.index]? = some u ∧ t.Kept u ∧ u.data = t.data := by
  obtain ⟨u, hu, hkept, hdata | ⟨hsome, i, hi, o, ho, hreorders⟩⟩ := h.tensor ht hname
  · exact ⟨u, hu, hkept, hdata⟩
  · exact absurd hreorders (hnone hsome i hi o ho)

/-- An operator that lifts nothing leaves all data. -/
theorem Aside.spares (h : g.Aside i k) (hkind : ∀ o, g.ops[i]? = some o → o.kind ≠ .reshape true) :
    g.Spares [i] k where
  op := fun hj hlt => h.op (by simpa using hj) hlt
  lift := fun {j o} ho hlift => by
    have hj : j ≠ i := fun hj => hkind o (hj ▸ ho) hlift
    exact ⟨o.status, (h.op hj (List.getElem?_eq_some_iff.mp ho).1).trans ho⟩
  tensor := fun ht hname => by
    obtain ⟨u, hu, hbare, hproducers⟩ := h.tensor ht hname
    exact ⟨u, hu, Tensor.kept_of_bare hbare hproducers,
      Or.inl ((congrArg Tensor.data hbare :))⟩
  named := h.named

theorem updateOp_eq_ok {change : Operator → Except Violation Operator}
    (h : updateOp id change g = .ok () k) : ∃ o o', g.ops[id.index]? = some o ∧
      change o = .ok o' ∧ k = { g with ops := g.ops.set id.index o' } := by
  unfold updateOp onOp at h
  exact Step.onEntry_update_eq_ok h

/-- An operator that was adapted, or had been. -/
theorem transformOp_eq_ok (h : transformOp ⟨i⟩ g = .ok () k) :
    ∃ o, g.ops[i]? = some o ∧ (o.status.isTransformed = true ∧ g = k ∨
      o.status.isTransformed = false ∧ ∃ k₁ status, adapt ⟨i⟩ o g = .ok () k₁ ∧
        k = { k₁ with ops := k₁.ops.modify i fun o => { o with status := status } }) := by
  unfold transformOp at h
  obtain ⟨o, _, hop, h⟩ := Step.bind_eq_ok.mp h
  obtain ⟨ho, rfl⟩ := op_eq_ok.mp hop
  obtain ⟨_, _, hrequire, h⟩ := Step.bind_eq_ok.mp h
  obtain ⟨-, rfl⟩ := require_eq_ok.mp hrequire
  refine ⟨o, ho, ?_⟩
  cases hdone : o.status.isTransformed with
  | true =>
      rw [hdone] at h
      cases h
      exact Or.inl ⟨rfl, rfl⟩
  | false =>
      rw [hdone] at h
      obtain ⟨_, k₁, hadapt, hadvance⟩ := Step.bind_eq_ok.mp h
      obtain ⟨o₁, o', ho₁, hstatus, rfl⟩ := updateOp_eq_ok hadvance
      obtain ⟨status, -, ho'⟩ := bind_eq_ok.mp hstatus
      cases ho'
      exact Or.inr ⟨rfl, k₁, status, hadapt, by rw [modify_eq_set ho₁]⟩

theorem aside_status (g : Graph) (i : Nat) (status : Status) :
    g.Aside i { g with ops := g.ops.modify i fun o => { o with status := status } } where
  op := fun hj _ => List.getElem?_modify_ne _ _ hj.symm
  tensor := fun ht _ => ⟨_, ht, rfl, rfl⟩
  named := fun hg => hg.of_names rfl rfl

/-- What a reshape of the source needs changes itself. -/
theorem adapt_aside (hg : g.Named) (hkind : o.kind ≠ .reshape true) (h : adapt ⟨i⟩ o g = .ok () k) :
    g.Aside i k := by
  unfold adapt at h
  cases hreshape : o.kind with
  | conv parameters =>
      rw [hreshape] at h
      cases h
      exact .refl i g
  | transpose perm =>
      rw [hreshape] at h
      cases h
      exact .refl i g
  | reshape liftsRank =>
      rw [hreshape] at h
      obtain ⟨input, _, hinput, h⟩ := Step.bind_eq_ok.mp h
      obtain ⟨-, rfl⟩ := entryAt_eq_ok.mp hinput
      obtain ⟨output, _, houtput, h⟩ := Step.bind_eq_ok.mp h
      obtain ⟨-, rfl⟩ := entryAt_eq_ok.mp houtput
      cases liftsRank with
      | true => exact absurd hreshape hkind
      | false =>
          obtain ⟨_, k₁, hin, hout⟩ := Step.bind_eq_ok.mp h
          have hfirst := adaptInput_aside hg hin
          exact hfirst.trans (adaptOutput_aside (hfirst.named hg) hout)

/-- A reshape that lifts a rank has its shape moved by the layout of its output,
and nothing else changes. -/
structure Moves (g : Graph) (o : Operator) (y w : TensorId) (u t : Tensor) (l : Layout)
    (data moved : Buffer) : Prop where
  output : o.outputs[0]? = some y
  lifted : g.tensors[y.index]? = some u
  layout : u.layout = some l
  shape : o.inputs[1]? = some w
  tensor : g.tensors[w.index]? = some t
  holds : t.data = some data
  moves : data.reorder l = .ok moved

/-- The graph with other data in a tensor. -/
def storing (g : Graph) (w : TensorId) (moved : Buffer) : Graph :=
  { g with tensors := g.tensors.modify w.index fun t => { t with data := some moved } }

theorem adapt_lift (hkind : o.kind = .reshape true) (h : adapt id o g = .ok () k) :
    ∃ y w u t l data moved, g.Moves o y w u t l data moved ∧ k = g.storing w moved := by
  unfold adapt at h
  rw [hkind] at h
  obtain ⟨input, _, hinput, h⟩ := Step.bind_eq_ok.mp h
  obtain ⟨-, rfl⟩ := entryAt_eq_ok.mp hinput
  obtain ⟨output, _, houtput, h⟩ := Step.bind_eq_ok.mp h
  obtain ⟨hy, rfl⟩ := entryAt_eq_ok.mp houtput
  obtain ⟨u, l, w, t, data, moved, hu, hl, hw, ht, hdata, hmoved, hk⟩ := adaptLift_eq_ok h
  exact ⟨output, w, u, t, l, data, moved, ⟨hy, hu, hl, hw, ht, hdata, hmoved⟩, hk⟩

theorem transformOp_lift (ho : g.ops[i]? = some o) (hkind : o.kind = .reshape true)
    (hopen : o.status.isTransformed = false) (h : transformOp ⟨i⟩ g = .ok () k) :
    ∃ y w u t l data moved, g.Moves o y w u t l data moved ∧
      k.tensors = (g.storing w moved).tensors := by
  obtain ⟨o', ho', ⟨hdone, -⟩ | ⟨-, k₁, status, hadapt, rfl⟩⟩ := transformOp_eq_ok h
  · obtain rfl := Option.some.inj (ho.symm.trans ho')
    rw [hdone] at hopen
    cases hopen
  · obtain rfl := Option.some.inj (ho.symm.trans ho')
    obtain ⟨y, w, u, t, l, data, moved, hmoves, rfl⟩ := adapt_lift hkind hadapt
    exact ⟨y, w, u, t, l, data, moved, hmoves, rfl⟩

theorem transformOp_spares (hg : g.Named) (h : transformOp ⟨i⟩ g = .ok () k) : g.Spares [i] k := by
  obtain ⟨o, ho, ⟨-, rfl⟩ | ⟨-, k₁, status, hadapt, rfl⟩⟩ := transformOp_eq_ok h
  · exact .refl g [i]
  by_cases hkind : o.kind = .reshape true
  · obtain ⟨y, w, u, t, l, data, moved, hmoves, rfl⟩ := adapt_lift hkind hadapt
    refine ⟨fun hj _ => List.getElem?_modify_ne _ _ (by simpa [eq_comm] using hj), ?_, ?_,
      fun hg => hg.of_names (names_modify (f := fun t => { t with data := some moved })
        (fun _ => rfl) _ _) rfl⟩
    · intro j o' ho' _
      refine ⟨if i = j then status else o'.status, ?_⟩
      rw [storing, List.getElem?_modify, ho']
      by_cases hij : i = j <;> simp [hij]
    · intro x t' ht' _
      refine ⟨if w.index = x then { t' with data := some moved } else t', ?_, ?_, ?_⟩
      · rw [storing, List.getElem?_modify, ht']
        rfl
      · split <;> exact ⟨rfl, rfl, rfl, rfl⟩
      · split
        · rename_i hw
          subst hw
          obtain rfl := Option.some.inj (hmoves.tensor.symm.trans ht')
          exact Or.inr ⟨by rw [hmoves.holds]; rfl, i, List.mem_singleton_self i, o, ho, hkind,
            hmoves.shape⟩
        · exact Or.inl rfl
  · refine ((adapt_aside hg hkind hadapt).trans (aside_status k₁ i status)).spares fun o' ho' => ?_
    obtain rfl := Option.some.inj (ho.symm.trans ho')
    exact hkind

/-! ## All operators -/

theorem transformOps_spares (hg : g.Named) (hnodup : is.Nodup) (hlt : ∀ i ∈ is, i < g.ops.length)
    (h : is.forM (fun i => transformOp ⟨i⟩) g = .ok () k) : g.Spares is k := by
  induction is generalizing g with
  | nil =>
      cases h
      exact .refl _ []
  | cons i is ih =>
      obtain ⟨hfresh, hnodup⟩ := List.nodup_cons.mp hnodup
      obtain ⟨_, k₁, hstep, hrest⟩ := Step.bind_eq_ok.mp h
      have hspares := transformOp_spares hg hstep
      have hlater : ∀ j ∈ is, j ∉ [i] ∧ j < g.ops.length := fun j hj =>
        ⟨fun hji => hfresh (List.mem_singleton.mp hji ▸ hj), hlt j (List.mem_cons_of_mem _ hj)⟩
      have hbounded : ∀ j ∈ is, j < k₁.ops.length := fun j hj =>
        lt_of_getElem?_eq (hspares.op (hlater j hj).1 (hlater j hj).2) (hlater j hj).2
      exact hspares.trans (ih (hspares.named hg) hnodup hbounded hrest) hlater

/-- Of all operators only one lift has a tensor for its shape, so the data is
moved once. -/
theorem transformOps_lift {r : Nat} {w : TensorId} (hg : g.Named) (hnodup : is.Nodup)
    (hlt : ∀ i ∈ is, i < g.ops.length) (h : is.forM (fun i => transformOp ⟨i⟩) g = .ok () k)
    (hr : r ∈ is) (ho : g.ops[r]? = some o) (hkind : o.kind = .reshape true)
    (hopen : o.status.isTransformed = false) (hy : o.outputs[0]? = some y)
    (hu : g.tensors[y.index]? = some u) (hl : u.layout = some l) (hlifted : ¬SplicedName u.name)
    (hw : o.inputs[1]? = some w) (ht : g.tensors[w.index]? = some t) (hshape : ¬SplicedName t.name)
    (hsole : t.data.isSome = true → ∀ j o', g.ops[j]? = some o' → o'.Reorders w → j = r) :
    ∃ data moved t', t.data = some data ∧ data.reorder l = .ok moved ∧
      k.tensors[w.index]? = some t' ∧ t'.data = some moved := by
  obtain ⟨before, after, rfl⟩ := List.append_of_mem hr
  obtain ⟨hnodupBefore, hnodupAfter, hdisjoint⟩ := List.nodup_append.mp hnodup
  obtain ⟨hrafter, hnodupAfter⟩ := List.nodup_cons.mp hnodupAfter
  have hrbefore : r ∉ before := fun hmem => hdisjoint r hmem r List.mem_cons_self rfl
  obtain ⟨k₁, k₂, hbefore, hstep, hafter⟩ := Step.forM_append_cons_eq_ok h
  have hfirst := transformOps_spares hg hnodupBefore
    (fun i hi => hlt i (List.mem_append_left _ hi)) hbefore
  have hkept : ∀ j ∈ r :: after, k₁.ops[j]? = g.ops[j]? := fun j hj =>
    hfirst.op (fun hmem => hdisjoint j hmem j hj rfl) (hlt j (List.mem_append_right _ hj))
  -- before it, nothing has moved the data
  obtain ⟨u₁, hu₁, hkeptu, -⟩ := hfirst.tensor hu hlifted
  obtain ⟨t₁, ht₁, hkeptt, hdata₁⟩ := hfirst.keeps ht hshape fun hsome j hj o' ho' hreorders =>
    hrbefore (hsole hsome j o' ho' hreorders ▸ hj)
  have ho₁ : k₁.ops[r]? = some o := (hkept r List.mem_cons_self).trans ho
  obtain ⟨y', w', u', t', l', data, moved, hmoves, htensors⟩ :=
    transformOp_lift ho₁ hkind hopen hstep
  obtain rfl := Option.some.inj (hy.symm.trans hmoves.output)
  obtain rfl := Option.some.inj (hw.symm.trans hmoves.shape)
  obtain rfl := Option.some.inj (hu₁.symm.trans hmoves.lifted)
  obtain rfl := Option.some.inj (ht₁.symm.trans hmoves.tensor)
  obtain rfl := Option.some.inj (hl.symm.trans (hkeptu.layout ▸ hmoves.layout))
  have ht₂ : k₂.tensors[w.index]? = some { t₁ with data := some moved } := by
    rw [htensors, storing, List.getElem?_modify_eq, ht₁]
    rfl
  -- behind it, nothing moves it again
  have hspares := transformOp_spares (hfirst.named hg) hstep
  have hother : ∀ j ∈ after, j ≠ r := fun j hj heq => hrafter (heq ▸ hj)
  have hbound : ∀ j ∈ after, j < g.ops.length := fun j hj =>
    hlt j (List.mem_append_right _ (List.mem_cons_of_mem _ hj))
  have hkept₂ : ∀ j ∈ after, k₂.ops[j]? = g.ops[j]? := fun j hj => by
    have hj₁ := hkept j (List.mem_cons_of_mem _ hj)
    rw [hspares.op (by simpa using hother j hj) (lt_of_getElem?_eq hj₁ (hbound j hj)), hj₁]
  have hlast := transformOps_spares (hspares.named (hfirst.named hg)) hnodupAfter
    (fun j hj => lt_of_getElem?_eq (hkept₂ j hj) (hbound j hj)) hafter
  obtain ⟨t₃, ht₃, -, hdata₃⟩ := hlast.keeps ht₂ (hkeptt.name ▸ hshape)
    fun _ j hj o' ho' hreorders => by
      have hsome : t.data.isSome = true := by rw [← hdata₁, hmoves.holds]; rfl
      exact hother j hj (hsole hsome j o' (hkept₂ j hj ▸ ho') hreorders)
  exact ⟨data, moved, t₃, hdata₁ ▸ hmoves.holds, hmoves.moves, ht₃, hdata₃⟩

end Graph

end Relayout
