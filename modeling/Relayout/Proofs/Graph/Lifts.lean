/-
# What becomes of lifts

Adapting moves what an operand was lifted to once, and reorders the shape operand
once for every reshape that has it.  Where an operand was lifted once, the two
agree.  Where it was lifted more often, the output has a writer for every lift,
and the shape was reordered as often.
-/
import Relayout.Proofs.Graph.Growth
import Relayout.Proofs.Graph.Lifting
import Relayout.Proofs.Graph.Origins

namespace Relayout

theorem Buffer.reorder_ofInts {l : Layout} {shape : List Nat} (h : shape.length = l.rank) :
    (ofInts .int64 (shape.map Int.ofNat)).reorder l =
      .ok (ofInts .int64 ((permutedDims l.perm shape).map Int.ofNat)) := by
  obtain ⟨f, rfl⟩ : ∃ f, l.source.map f = shape :=
    ⟨_, map_entryOf l.source_nodup (h.trans l.length_source.symm)⟩
  have hlength : ((((l.source.map f).map Int.ofNat).map ElementType.int64.ofInt)).length =
      l.rank := by simpa using h
  have hmoved := l.permute_eq_map hlength (f := fun label => ElementType.int64.ofInt (f label))
    (by simp)
  rw [reorder, ofInts, hmoved, l.permutedDims_map]
  simp [ofInts, bind, Except.bind, pure, Except.pure]

namespace Graph

variable {g k k' : Graph} {id : OpId} {slot : Nat} {operand : TensorId} {o : Operator}
  {t : Tensor} {l : Layout} {done : List Lift} {e : Lift}

/-- Adapting a graph in which nothing was moved: all tensors are, and then the
operators are adapted. -/
theorem Unmoved.transform_eq_ok (hk : k.Unmoved) (h : transform k = .ok () k') :
    (List.range k.ops.length).forM (fun i => transformOp ⟨i⟩) k.moved = .ok () k' := by
  unfold transform at h
  rw [Step.run_bind_of_ok (Step.run_get k)] at h
  obtain ⟨_, k₁, hmove, hadapt⟩ := Step.bind_eq_ok.mp h
  have hends := moveWaiting_ends k
  rw [hmove] at hends
  obtain rfl : k₁ = k.moved := hends.1.trans (movedPending_of_parsed hk.tensors)
  rwa [Step.run_bind_of_ok (Step.run_get _)] at hadapt

theorem Unmoved.spares (hk : k.Unmoved) (hnamed : k.Named) (h : transform k = .ok () k') :
    k.moved.Spares (List.range k.ops.length) k' :=
  transformOps_spares hnamed.moved List.nodup_range (fun _ hi => List.mem_range.mp hi)
    (hk.transform_eq_ok h)

theorem getElem?_moved {j : Nat} (ht : k.tensors[j]? = some t) :
    k.moved.tensors[j]? = some t.moved := by
  rw [moved, List.getElem?_map, ht]
  rfl

theorem not_splicedName_lifted (n : String) : ¬SplicedName (liftedName n) := by
  rintro ⟨subject, h | h⟩
  · exact synthesizedName_reshape_ne_transposed _ _ h
  · exact synthesizedName_reshape_ne_toTranspose _ _ h

theorem not_splicedName_liftedShape (n : String) : ¬SplicedName (liftedShapeName n) := by
  rintro ⟨subject, h | h⟩
  · exact synthesizedName_vector_ne_transposed _ _ h
  · exact synthesizedName_vector_ne_toTranspose _ _ h

/-- Operator `id` reads `s` for its shape and writes `u` only. -/
structure ShapesInto (g : Graph) (id : OpId) (o : Operator) (s u : Tensor) : Prop where
  op : g.ops[id.index]? = some o
  shape : ∃ w, o.inputs[1]? = some w ∧ g.tensors[w.index]? = some s
  output : ∃ y, o.outputs = [y] ∧ g.tensors[y.index]? = some u

/-- Who has the shape of an operand for its own lifts this operand. -/
theorem Lifted.exists_of_reorders {j : Nat} {w : TensorId} {subject : String} (hk : Lifted done k)
    (ho : k.ops[j]? = some o) (h : o.Reorders w) (ht : k.tensors[w.index]? = some t)
    (hname : t.name = liftedShapeName subject) : ∃ e ∈ liftsOf done subject, e.reshape = ⟨j⟩ := by
  obtain ⟨hkind, hw⟩ := h
  obtain ⟨e, he, hreshape⟩ := hk.only ho hkind
  obtain ⟨o', -, w', ho', -, -, -, hw', hnamed⟩ := (hk.lifts e he).op
  rw [hreshape] at ho'
  obtain rfl := Option.some.inj (ho.symm.trans ho')
  obtain rfl := Option.some.inj (hw.symm.trans hw')
  rw [nameOf?, ht, Option.map_some, hname] at hnamed
  rcases hnamed with hnamed | ⟨n, hnamed⟩
  · exact ⟨e, mem_liftsOf.mpr ⟨he, synthesizedName_injective
      (synthesizedName_injective (Option.some.inj hnamed.symm))⟩, hreshape⟩
  · exact absurd (Option.some.inj hnamed.symm) (synthesizedName_reshape_ne_vector _ _)

section Adapted

variable (hk : Lifted done k) (he : e ∈ done) (h : transform k = .ok () k')

include hk he h

/-- The output of an adapted lift has the producers that its operand has lifts. -/
theorem Lifted.output_adapted : ∃ y u, (∃ o status, k.ops[e.reshape.index]? = some o ∧
    k'.ops[e.reshape.index]? = some { o with status := status } ∧ o.outputs = [y]) ∧
      k'.tensors[y.index]? = some u ∧ u.producers.length = (liftsOf done e.subject).length ∧
      ∀ e', liftsOf done e.subject = [e'] →
        u.shape = permutedDims e'.layout.perm e'.shape ∧ u.layout = some e'.layout := by
  obtain ⟨o, y, -, ho, hkind, houtputs, hy, -⟩ := (hk.lifts e he).op
  obtain ⟨u, hu, hname⟩ := Option.map_eq_some_iff.mp hy
  have hlifted := hk.tensors u (List.mem_of_getElem? hu)
  have hspares := hk.unmoved.spares hk.named h
  obtain ⟨status, ho'⟩ := hspares.lift ho hkind
  obtain ⟨u', hu', hkept, -⟩ := hspares.tensor (getElem?_moved hu)
    (by rw [Tensor.moved_name, hname]; exact not_splicedName_lifted _)
  refine ⟨y, u', ⟨o, status, ho, ho', houtputs⟩, hu', ?_, fun e' hsole => ?_⟩
  · rw [hkept.producers, Tensor.moved_producers, (hlifted.producers _ hname).2, List.length_map]
  · obtain ⟨hshape, hlayout⟩ := hlifted.sole _ e' hname hsole
    have hrank : u.rank = e'.layout.rank := by rw [Tensor.rank, hshape, e'.rank_shape]
    rw [hkept.shape, hkept.layout, Tensor.moved_layout, Tensor.shape_moved hlayout hrank, hshape]
    exact ⟨rfl, hlayout⟩

/-- The shape operand of an adapted lift whose operand has no other has the
lifted shape, in the order of the layout. -/
theorem Lifted.shape_adapted (hsole : liftsOf done e.subject = [e]) :
    ∃ o w s, k.ops[e.reshape.index]? = some o ∧ o.inputs[1]? = some w ∧
      k'.tensors[w.index]? = some s ∧ s.data =
        some (.ofInts .int64 ((permutedDims e.layout.perm e.shape).map Int.ofNat)) := by
  obtain ⟨o, y, w, ho, hkind, houtputs, hy, hw, hnamed⟩ := (hk.lifts e he).op
  obtain ⟨u, hu, huname⟩ := Option.map_eq_some_iff.mp hy
  obtain ⟨-, hlayout⟩ := (hk.tensors u (List.mem_of_getElem? hu)).sole _ e huname hsole
  obtain ⟨t, ht, hname⟩ : ∃ t, k.tensors[w.index]? = some t ∧
      (t.name = liftedShapeName e.subject ∨ ∃ n, t.name = liftedName n) := by
    rcases hnamed with hnamed | ⟨n, hnamed⟩
    · obtain ⟨t, ht, hname⟩ := Option.map_eq_some_iff.mp hnamed
      exact ⟨t, ht, Or.inl hname⟩
    · obtain ⟨t, ht, hname⟩ := Option.map_eq_some_iff.mp hnamed
      exact ⟨t, ht, Or.inr ⟨n, hname⟩⟩
  have htensor := hk.tensors t (List.mem_of_getElem? ht)
  -- what was lifted itself has no data
  have hvector : t.moved.data.isSome = true → t.name = liftedShapeName e.subject := by
    intro hsome
    refine hname.resolve_right fun ⟨n, hn⟩ => ?_
    rw [Tensor.isSome_data_moved, htensor.runtime n hn] at hsome
    cases hsome
  have honly : t.moved.data.isSome = true → ∀ j o', k.moved.ops[j]? = some o' → o'.Reorders w →
      j = e.reshape.index := by
    intro hsome j o' ho' hreorders
    obtain ⟨e', he', hreshape⟩ := hk.exists_of_reorders ho' hreorders ht (hvector hsome)
    rw [hsole] at he'
    rw [← List.mem_singleton.mp he', hreshape]
  have hlifted : ¬SplicedName u.moved.name := by
    rw [Tensor.moved_name, huname]
    exact not_splicedName_lifted _
  have hclear : ¬SplicedName t.moved.name := by
    rw [Tensor.moved_name]
    rcases hname with hname | ⟨n, hname⟩ <;> rw [hname]
    · exact not_splicedName_liftedShape _
    · exact not_splicedName_lifted _
  have hopen : o.status.isTransformed = false := by
    rw [hk.unmoved.ops o (List.mem_of_getElem? ho)]
    rfl
  obtain ⟨data, moved, s, hdata, hmoved, hs, hsdata⟩ := transformOps_lift hk.named.moved
    List.nodup_range (fun _ hi => List.mem_range.mp hi) (hk.unmoved.transform_eq_ok h)
    (List.mem_range.mpr (hk.lifts e he).lt) ho hkind hopen (by rw [houtputs]; rfl)
    (getElem?_moved hu) (u.moved_layout.trans hlayout) hlifted hw (getElem?_moved ht) hclear honly
  have hshape := hvector (by rw [hdata]; rfl)
  rw [Tensor.moved_of_layout_none (htensor.unmoved _ hshape).2, htensor.values _ e hshape hsole]
    at hdata
  obtain rfl := Option.some.inj hdata
  rw [Buffer.reorder_ofInts e.rank_shape] at hmoved
  cases hmoved
  exact ⟨o, w, s, ho, hw, hs, hsdata⟩

end Adapted

/-- Reshape `id` has a shape operand that says the shape of its output, and the
output has one producer. -/
def Intact (g : Graph) (id : OpId) : Prop :=
  ∃ o s u, g.ShapesInto id o s u ∧ s.data = some (.ofInts .int64 (u.shape.map Int.ofNat)) ∧
    ∃ p, u.producers = [p]

theorem Lifted.intact_iff (hk : Lifted done k) (he : e ∈ done) (h : transform k = .ok () k') :
    k'.Intact e.reshape ↔ (liftsOf done e.subject).length = 1 := by
  obtain ⟨y, u, ⟨o, status, ho, ho', houtputs⟩, hu, hproducers, hsole⟩ := hk.output_adapted he h
  constructor
  · rintro ⟨o₁, s, u₁, ⟨ho₁, -, y₁, houtputs₁, hu₁⟩, -, p, hp⟩
    obtain rfl := Option.some.inj (ho'.symm.trans ho₁)
    obtain rfl := List.singleton_inj.mp (houtputs.symm.trans houtputs₁)
    obtain rfl := Option.some.inj (hu.symm.trans hu₁)
    rw [← hproducers, hp]
    rfl
  · intro hone
    obtain ⟨e', he'⟩ := List.length_eq_one_iff.mp hone
    have hmem := mem_liftsOf.mpr ⟨he, rfl⟩
    rw [he'] at hmem
    obtain rfl := List.mem_singleton.mp hmem
    obtain ⟨hshape, -⟩ := hsole e he'
    obtain ⟨o₁, w, s, ho₁, hw, hs, hdata⟩ := hk.shape_adapted he h he'
    obtain rfl := Option.some.inj (ho.symm.trans ho₁)
    exact ⟨_, s, u, ⟨ho', ⟨w, hw, hs⟩, y, houtputs, hu⟩, by rw [hdata, hshape],
      List.length_eq_one_iff.mp (hproducers.trans hone)⟩

/-! ## Any calls -/

/-- A call that lifts a rank: by whom, for which slot and to which layout. -/
structure LiftRequest where
  reader : OpId
  slot : Nat
  layout : Layout

/-- The call, which answers what it lifted and by which reshape. -/
def LiftRequest.run (r : LiftRequest) : Step Graph (TensorId × OpId) := do
  let operator ← op r.reader
  let operand ← operator.input r.slot
  let reshape ← liftRank r.reader r.slot r.layout
  return (operand, reshape)

/-- What a call answers, as it is remembered. -/
def Lift.answer (e : Lift) : TensorId × OpId := (e.operand, e.reshape)

theorem Lifted.request (hk : Lifted done k) (r : LiftRequest) {answer : TensorId × OpId}
    (h : r.run k = .ok answer k') : ∃ e : Lift, answer = e.answer ∧ Lifted (done ++ [e]) k' := by
  unfold LiftRequest.run at h
  obtain ⟨o, _, hop, h⟩ := Step.bind_eq_ok.mp h
  obtain ⟨ho, rfl⟩ := op_eq_ok.mp hop
  obtain ⟨operand, _, hinput, h⟩ := Step.bind_eq_ok.mp h
  obtain ⟨hslot, rfl⟩ := entryAt_eq_ok.mp hinput
  obtain ⟨reshape, _, hlift, hreturn⟩ := Step.bind_eq_ok.mp h
  cases hreturn
  obtain ⟨o', operand', t, hat, -, hrank, -, -, rfl, rfl⟩ := liftRank_eq_ok hk.named hlift
  obtain rfl := Option.some.inj (ho.symm.trans hat.op)
  obtain rfl := Option.some.inj (hslot.symm.trans hat.slot)
  exact ⟨.of operand t ⟨k.ops.length⟩ r.layout hrank, rfl, hk.rankLifted hat.tensor hrank _⟩

theorem Lifted.requests (hk : Lifted [] g) {requests : List LiftRequest}
    {answers : List (TensorId × OpId)} (h : requests.mapM LiftRequest.run g = .ok answers k) :
    ∃ done : List Lift, answers = done.map Lift.answer ∧ Lifted done k := by
  have hends : Step.Ends (fun _ => True)
      (fun answers k => ∃ done : List Lift, answers = done.map Lift.answer ∧ Lifted done k)
      (requests.mapM LiftRequest.run g) := by
    refine .mapM (I := fun _ answers k => ∃ done : List Lift, answers = done.map Lift.answer ∧
      Lifted done k) ⟨[], rfl, hk⟩ ?_
    rintro - r - - s - ⟨done, rfl, hs⟩
    cases hrun : r.run s with
    | error => trivial
    | ok answer s' =>
        obtain ⟨e, rfl, hs'⟩ := hs.request r hrun
        exact ⟨done ++ [e], by rw [List.map_append, List.map_singleton], hs'⟩
  rwa [h] at hends

/-- Operands are told apart by their names. -/
theorem Lifted.count_answers (hk : Lifted done k) (he : e ∈ done) :
    ((done.map Lift.answer).map Prod.fst).count e.operand = (liftsOf done e.subject).length := by
  rw [List.map_map, List.count_eq_countP, List.countP_map, liftsOf, List.countP_eq_length_filter]
  refine congrArg List.length (List.filter_congr fun e' he' => ?_)
  have hname := (hk.lifts e he).operand
  have hname' := (hk.lifts e' he').operand
  rw [Bool.eq_iff_iff, Function.comp_apply, Function.comp_apply, beq_iff_eq, decide_eq_true_eq]
  constructor
  · intro heq
    rw [show e'.operand = e.operand from heq, hname] at hname'
    exact (Option.some.inj hname').symm
  · intro heq
    exact hk.named.eq_of_nameOf? (heq ▸ hname') hname

theorem Lifted.intact_iff_count (hk : Lifted done k) (h : transform k = .ok () k') :
    ∀ answer ∈ done.map Lift.answer,
      k'.Intact answer.2 ↔ ((done.map Lift.answer).map Prod.fst).count answer.1 = 1 := by
  intro answer hanswer
  obtain ⟨e, he, rfl⟩ := List.mem_map.mp hanswer
  rw [Lift.answer, hk.intact_iff he h, hk.count_answers he]

/-- A source that keeps away from the reserved names has nothing lifted. -/
theorem Intake.name_ne_lifted {s : Scope} {layouts : SortedMap ExplicitLayout}
    (h : Intake s layouts g) (hnames : s.Unreserved) (ht : t ∈ g.tensors) (n : String) :
    t.name ≠ liftedName n ∧ t.name ≠ liftedShapeName n := by
  have hvector : Reserved t.name → ∃ owner, ¬Reserved owner ∧
      t.name = synthesizedName "Vector" owner := fun hreserved => by
    obtain ⟨decl, -, _, owner, -, howner, hbare⟩ := h.owned_vector hnames ht hreserved
    rw [Scope.nameIn?_eq, Option.bind_eq_some_iff] at howner
    obtain ⟨p, -, hp⟩ := howner
    exact ⟨owner, hnames.not_reserved hp, (congrArg Tensor.name hbare :)⟩
  constructor
  · intro hname
    obtain ⟨owner, -, howner⟩ := hvector (hname ▸ reserved_synthesizedName _ _)
    exact synthesizedName_reshape_ne_vector _ _ (hname.symm.trans howner)
  · intro hname
    obtain ⟨owner, hfree, howner⟩ := hvector (hname ▸ reserved_synthesizedName _ _)
    obtain rfl : liftedName n = owner := synthesizedName_injective (hname.symm.trans howner)
    exact hfree (reserved_synthesizedName _ _)

theorem Intake.lifted {s : Scope} {layouts : SortedMap ExplicitLayout} (h : Intake s layouts g)
    (hnames : s.Unreserved) : Lifted [] g where
  named := h.named
  unmoved := h.unmoved
  nodup := List.nodup_nil
  lifts := fun _ he => absurd he List.not_mem_nil
  only := by
    intro j o ho hkind
    obtain ⟨-, c, -, -, hstands⟩ := h.stands_at ho
    have hc := hstands.kind
    rw [hkind] at hc
    cases c with
    | conv =>
        obtain ⟨_, hc⟩ := hc
        cases hc
    | reshape => cases hc
  tensors := fun u hu =>
    have hlifted n := (h.name_ne_lifted hnames hu n).1
    have hshape n := (h.name_ne_lifted hnames hu n).2
    ⟨fun n hn => absurd hn (hlifted n), fun n hn => absurd hn (hlifted n),
      fun n _ hn => absurd hn (hlifted n), fun n hn => absurd hn (hshape n),
      fun n _ hn => absurd hn (hshape n)⟩

/-- However often and by whomever ranks are lifted, adapting leaves the reshape
of a call with the shape of its output, and the output with one producer,
exactly if no other call lifted the same operand. -/
theorem lifts_intact_iff {s : Scope} {layouts : SortedMap ExplicitLayout}
    {requests : List LiftRequest} {answers : List (TensorId × OpId)} (h : IsIntake s layouts g)
    (hnames : s.Unreserved) (hlifts : requests.mapM LiftRequest.run g = .ok answers k)
    (hrun : transform k = .ok () k') :
    ∀ answer ∈ answers, k'.Intact answer.2 ↔ (answers.map Prod.fst).count answer.1 = 1 := by
  obtain ⟨done, rfl, hk⟩ := (h.intake.lifted hnames).requests hlifts
  exact hk.intact_iff_count hrun

/-- One value lifted for both of its readers, and the shape of the first. -/
def forkedLifts : List LiftRequest :=
  [⟨⟨0⟩, 0, exchangedLayout⟩, ⟨⟨1⟩, 0, exchangedLayout⟩, ⟨⟨0⟩, 1, exchangedLayout⟩]

theorem forkedScope_unreserved : forkedScope.Unreserved := by
  unfold Scope.Unreserved
  decide

theorem forkedLifts_run : ∃ g k k', IsIntake forkedScope .empty g ∧ forkedScope.Unreserved ∧
    forkedLifts.mapM LiftRequest.run g = .ok [(⟨0⟩, ⟨2⟩), (⟨0⟩, ⟨3⟩), (⟨1⟩, ⟨4⟩)] k ∧
      transform k = .ok () k' := by
  obtain ⟨g, k', hg, hrun, -⟩ := exists_of_intakeThen? forkedScope .empty
    (do let answers ← forkedLifts.mapM LiftRequest.run
        Step.require (answers = [(⟨0⟩, ⟨2⟩), (⟨0⟩, ⟨3⟩), (⟨1⟩, ⟨4⟩)]) (.untyped "")
        transform)
    (fun _ => true) (by decide +kernel)
  obtain ⟨answers, k, hlifts, hrun⟩ := Step.bind_eq_ok.mp hrun
  obtain ⟨_, _, hrequire, hrun⟩ := Step.bind_eq_ok.mp hrun
  obtain ⟨rfl, rfl⟩ := require_eq_ok.mp hrequire
  exact ⟨g, k, k', hg, forkedScope_unreserved, hlifts, hrun⟩

theorem lifts_intact_iff_forked : ∃ g k k', IsIntake forkedScope .empty g ∧
    forkedScope.Unreserved ∧
    forkedLifts.mapM LiftRequest.run g = .ok [(⟨0⟩, ⟨2⟩), (⟨0⟩, ⟨3⟩), (⟨1⟩, ⟨4⟩)] k ∧
    transform k = .ok () k' ∧ ¬k'.Intact ⟨2⟩ ∧ ¬k'.Intact ⟨3⟩ ∧ k'.Intact ⟨4⟩ := by
  obtain ⟨g, k, k', hg, hnames, hlifts, hrun⟩ := forkedLifts_run
  have hintact := lifts_intact_iff hg hnames hlifts hrun
  refine ⟨g, k, k', hg, hnames, hlifts, hrun, fun hfirst => ?_, fun hsecond => ?_, ?_⟩
  · exact absurd ((hintact (⟨0⟩, ⟨2⟩) (by decide)).mp hfirst) (by decide)
  · exact absurd ((hintact (⟨0⟩, ⟨3⟩) (by decide)).mp hsecond) (by decide)
  · exact (hintact (⟨1⟩, ⟨4⟩) (by decide)).mpr (by decide)

/-- A lift need not stay what it was made. -/
theorem lifts_not_intact :
    ¬∀ (s : Scope) (layouts : SortedMap ExplicitLayout) (requests : List LiftRequest)
        (g k k' : Graph) (answers : List (TensorId × OpId)), IsIntake s layouts g →
      s.Unreserved → requests.mapM LiftRequest.run g = .ok answers k → transform k = .ok () k' →
        ∀ answer ∈ answers, k'.Intact answer.2 := by
  intro hclaim
  obtain ⟨g, k, k', hg, hnames, hlifts, hrun⟩ := forkedLifts_run
  have hintact := hclaim _ _ _ g k k' _ hg hnames hlifts hrun (⟨0⟩, ⟨2⟩) (by decide)
  obtain ⟨done, hanswers, hk⟩ := (hg.intake.lifted hnames).requests hlifts
  rw [hk.intact_iff_count hrun _ (hanswers ▸ by decide), ← hanswers] at hintact
  exact absurd hintact (by decide)

end Graph

end Relayout
