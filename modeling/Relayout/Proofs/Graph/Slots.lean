/-
# Rewriting an input slot

A rewrite is asked for by a slot, but what it works on is the operand in it: the
reader is pointed at the new tensor in the first slot that holds the operand,
and one consumer edge stands for all of them.  Here both rewrites are written
down as equations for any slot, with what they need to go through and what a run
that went through tells.
-/
import Relayout.Proofs.Graph.Adaptation

namespace Relayout

namespace Operator

variable {o : Operator} {old : TensorId}

/-- Another tensor in the first input slot that holds `old`. -/
def redirect (old new : TensorId) (o : Operator) : Operator :=
  { o with inputs := o.inputs.set (o.inputs.idxOf old) new }

theorem replaceInput_eq_redirect (h : old ∈ o.inputs) (new : TensorId) :
    o.replaceInput old new = .ok (o.redirect old new) := by
  rw [replaceInput, idxOf?_of_mem h]
  rfl

/-- A reshape that lifts the rank of `source` to the shape that `values`
hold. -/
def lift (name : String) (source values target : TensorId) : Operator where
  index := none
  name := name
  kind := .reshape true
  inputs := [source, values]
  outputs := [target]
  pre := []
  post := []
  status := .parsed

end Operator

namespace Graph

variable {g k : Graph} {id reader : OpId} {slot : Nat} {operand moved values lifted : TensorId}
  {o : Operator} {t u : Tensor} {l : Layout} {name owner : String}

/-! ## Rewiring -/

/-- The graph in which `reader` reads `moved` in place of `operand`, in the
first slot that holds it. -/
def redirecting (g : Graph) (reader : OpId) (operand moved : TensorId) : Graph :=
  { g with
    tensors := (g.tensors.modify operand.index (·.removeConsumer reader)).modify moved.index
      (·.addConsumer reader)
    ops := g.ops.modify reader.index (·.redirect operand moved) }

/-- The graph with a transpose from `operand` to `moved`, which `reader` reads
in the first slot that held `operand`. -/
def turnedBefore (g : Graph) (reader : OpId) (operand moved : TensorId) (perm : List Nat)
    (name : String) : Graph :=
  { g with
    tensors := (g.tensors.modify operand.index (·.swapConsumer reader ⟨g.ops.length⟩)).modify
      moved.index fun t => (t.addProducer ⟨g.ops.length⟩).addConsumer reader
    ops := (g.ops.modify reader.index fun o =>
      (o.redirect operand moved).addPre ⟨g.ops.length⟩) ++ [.turn perm name operand moved]
    created := g.created ++ [⟨g.ops.length⟩] }

/-- The graph with a reshape from `operand` to `lifted`, which `reader` reads in
the first slot that held `operand`. -/
def liftedBefore (g : Graph) (reader : OpId) (operand values lifted : TensorId) (name : String) :
    Graph :=
  { g with
    tensors := ((g.tensors.modify operand.index (·.swapConsumer reader ⟨g.ops.length⟩)).modify
      values.index (·.addConsumer ⟨g.ops.length⟩)).modify lifted.index fun t =>
        (t.addProducer ⟨g.ops.length⟩).addConsumer reader
    ops := (g.ops.modify reader.index fun o =>
      (o.redirect operand lifted).addPre ⟨g.ops.length⟩) ++ [.lift name operand values lifted]
    created := g.created ++ [⟨g.ops.length⟩] }

theorem readInstead_eq (ho : g.ops[reader.index]? = some o) (hmem : operand ∈ o.inputs)
    (hoperand : operand.index < g.tensors.length) (hmoved : moved.index < g.tensors.length) :
    readInstead reader operand moved g = .ok () (g.redirecting reader operand moved) :=
  readInstead_of_replace ho (Operator.replaceInput_eq_redirect hmem moved) hoperand hmoved

theorem transposeBefore_eq (ho : g.ops[reader.index]? = some o) (hmem : operand ∈ o.inputs)
    (ht : g.tensors[operand.index]? = some t) (hreader : reader ∈ t.consumers)
    (hmoved : moved.index < g.tensors.length) (perm : List Nat) (name : String) :
    transposeBefore reader operand moved perm name g =
      .ok ⟨g.ops.length⟩ (g.turnedBefore reader operand moved perm name) :=
  transposeBefore_of_replace ho (Operator.replaceInput_eq_redirect hmem moved) ht hreader hmoved
    perm name

/-- What is spliced in needs the operator it is for at the end of the operand. -/
theorem synthesize_error {α : Type} {kind : Kind} {f : Operator → Operator}
    {c : OpId → Tensor → Except Violation Tensor} {rest : OpId → Step Graph α} {v : Violation}
    (ht : g.tensors[operand.index]? = some t) (hbroken : c ⟨g.ops.length⟩ t = .error v) :
    ∃ g', (do
      let turn ← synthesize kind name
      changeOp turn f
      updateTensor operand (c turn)
      rest turn) g = .error (.invariant v) g' := by
  rw [Step.run_bind_of_ok (run_synthesize _ _ g), Step.run_bind_of_ok (run_changeOp (by simp) _)]
  have hstop : ∃ g', updateTensor operand (c ⟨g.ops.length⟩) { g with
      ops := (g.ops ++ [Operator.fresh none name kind]).modify g.ops.length f
      created := g.created ++ [⟨g.ops.length⟩] } = .error (.invariant v) g' :=
    run_updateTensor_error ht hbroken
  obtain ⟨g', hrun⟩ := hstop
  exact ⟨g', Step.run_bind_of_error hrun⟩

/-! ## The shape operand -/

/-- The graph with the vector of an owner, which has the given values if it is
new, and the identifier of that vector. -/
def withVector (g : Graph) (owner : String) (values : List Int) : TensorId × Graph :=
  match g.lookup? (synthesizedName "Vector" owner) with
  | some id => (id, g)
  | none =>
      (⟨g.tensors.length⟩, g.adding (constant (synthesizedName "Vector" owner) [values.length]
        (.ofInts .int64 values) ⟨g.tensors.length⟩))

theorem vector_eq (g : Graph) (owner : String) (values : List Int) :
    vector owner values g = .ok (g.withVector owner values).1 (g.withVector owner values).2 := by
  unfold vector registered withVector
  rw [Step.run_bind_of_ok (Step.run_get g)]
  cases g.lookup? (synthesizedName "Vector" owner) <;> rfl

theorem withVector_ops (owner : String) (values : List Int) :
    (g.withVector owner values).2.ops = g.ops := by
  unfold withVector
  split <;> rfl

/-- What was there stays, and keeps its place. -/
theorem getElem?_withVector {j : Nat} (hu : g.tensors[j]? = some u) (owner : String)
    (values : List Int) : (g.withVector owner values).2.tensors[j]? = some u := by
  unfold withVector
  split
  · exact hu
  · rw [tensors_adding, List.getElem?_append_left (List.getElem?_eq_some_iff.mp hu).1, hu]

theorem named_withVector (hg : g.Named) (owner : String) (values : List Int) :
    (g.withVector owner values).2.Named := by
  unfold withVector
  cases hlookup : g.lookup? (synthesizedName "Vector" owner) with
  | some e => exact hg
  | none => exact hg.adding hlookup

theorem withVector_lt (hg : g.Named) (owner : String) (values : List Int) :
    (g.withVector owner values).1.index < (g.withVector owner values).2.tensors.length := by
  cases hlookup : g.lookup? (synthesizedName "Vector" owner) with
  | some e =>
      obtain ⟨u, hu, -⟩ := lookup?_eq_some hg hlookup
      simpa [withVector, hlookup] using (List.getElem?_eq_some_iff.mp hu).1
  | none => simp [withVector, hlookup]

/-- A tensor that was not there is the vector. -/
theorem getElem?_withVector_cases {j : Nat} {values : List Int}
    (hu : (g.withVector owner values).2.tensors[j]? = some u) : g.tensors[j]? = some u ∨
      j = g.tensors.length ∧ (g.withVector owner values).1 = ⟨j⟩ ∧
        u = constant (synthesizedName "Vector" owner) [values.length] (.ofInts .int64 values)
          ⟨j⟩ := by
  unfold withVector at hu ⊢
  split at hu
  · exact Or.inl hu
  · rcases getElem?_concat_cases hu with hu | ⟨rfl, rfl⟩
    · exact Or.inl hu
    · exact Or.inr ⟨rfl, rfl, rfl⟩

/-! ## Lifting a rank -/

/-- A shape lifted to a rank by leading ones. -/
def widened (rank : Nat) (shape : List Nat) : List Nat :=
  List.replicate (rank - shape.length) 1 ++ shape

theorem length_widened {rank : Nat} {shape : List Nat} (h : shape.length ≤ rank) :
    (widened rank shape).length = rank := by
  rw [widened, List.length_append, List.length_replicate]
  omega

/-- The graph with the tensors that lifting `t` calls for, and what they are:
the lifted tensor, and its shape. -/
def liftTargets (g : Graph) (t : Tensor) (l : Layout) : TensorId × TensorId × Graph :=
  let name := synthesizedName "Reshape" t.name
  let derived := g.withDerived t name
  let vector := derived.2.withVector name ((widened l.rank t.shape).map Int.ofNat)
  (derived.1, vector.1, vector.2.completing derived.1 (widened l.rank t.shape) l)

/-- The graph in which `reader` reads `operand` lifted to the rank of `l`. -/
def rankLifted (g : Graph) (reader : OpId) (operand : TensorId) (t : Tensor) (l : Layout) :
    Graph :=
  let targets := g.liftTargets t l
  targets.2.2.liftedBefore reader operand targets.2.1 targets.1 (synthesizedName "Reshape" t.name)

theorem liftTargets_ops (t : Tensor) (l : Layout) : (g.liftTargets t l).2.2.ops = g.ops := by
  rw [liftTargets]
  dsimp only
  rw [completing, withVector_ops, withDerived_ops]

theorem getElem?_withDerived_of_lt {j : Nat} (hu : g.tensors[j]? = some u) (t : Tensor)
    (name : String) : (g.withDerived t name).2.tensors[j]? = some u := by
  unfold withDerived
  split
  · exact hu
  · rw [tensors_adding, List.getElem?_append_left (List.getElem?_eq_some_iff.mp hu).1, hu]

/-- A tensor that was not there is the derived one. -/
theorem getElem?_withDerived_cases {j : Nat} (hu : (g.withDerived t name).2.tensors[j]? = some u) :
    g.tensors[j]? = some u ∨
      g.lookup? name = none ∧ (g.withDerived t name).1 = ⟨j⟩ ∧ u = t.derived name ⟨j⟩ := by
  cases hlookup : g.lookup? name with
  | some e =>
      rw [withDerived, hlookup] at hu
      exact Or.inl hu
  | none =>
      rw [withDerived, hlookup] at hu ⊢
      rcases getElem?_concat_cases hu with hu | ⟨rfl, rfl⟩
      · exact Or.inl hu
      · exact Or.inr ⟨rfl, rfl, rfl⟩

/-- Of the tensors that were there, only one of the lifted name changes. -/
theorem getElem?_liftTargets {j : Nat} (hu : g.tensors[j]? = some u) (t : Tensor) (l : Layout) :
    (g.liftTargets t l).2.2.tensors[j]? =
      some (if g.lookup? (synthesizedName "Reshape" t.name) = some ⟨j⟩ then
        u.completed (widened l.rank t.shape) l else u) := by
  have hlt := (List.getElem?_eq_some_iff.mp hu).1
  rw [liftTargets]
  dsimp only
  rw [completing, List.getElem?_modify, getElem?_withVector (getElem?_withDerived_of_lt hu t _)]
  simp only [withDerived_index_iff t _ hlt, Option.map_eq_map, Option.map_some]

theorem liftTargets_lt (hg : g.Named) (t : Tensor) (l : Layout) :
    (g.liftTargets t l).1.index < (g.liftTargets t l).2.2.tensors.length ∧
      (g.liftTargets t l).2.1.index < (g.liftTargets t l).2.2.tensors.length := by
  obtain ⟨u, hu, -⟩ := getElem?_withDerived hg t (synthesizedName "Reshape" t.name)
  refine ⟨?_, ?_⟩
  · have := (List.getElem?_eq_some_iff.mp (getElem?_withVector hu
      (synthesizedName "Reshape" t.name) ((widened l.rank t.shape).map Int.ofNat))).1
    simpa [liftTargets, completing] using this
  · simpa [liftTargets, completing] using withVector_lt (named_withDerived hg t _) _ _

/-- A tensor that lifting calls for and that was not there is the lifted one or
its shape. -/
theorem liftTargets_cases (hg : g.Named) {j : Nat}
    (hu : (g.liftTargets t l).2.2.tensors[j]? = some u) :
    (∃ v, g.tensors[j]? = some v ∧
      u = if g.lookup? (synthesizedName "Reshape" t.name) = some ⟨j⟩ then
        v.completed (widened l.rank t.shape) l else v) ∨
    (g.lookup? (synthesizedName "Reshape" t.name) = none ∧ (g.liftTargets t l).1 = ⟨j⟩ ∧
      u = (t.derived (synthesizedName "Reshape" t.name) ⟨j⟩).completed (widened l.rank t.shape)
        l) ∨
    ((g.liftTargets t l).2.1 = ⟨j⟩ ∧
      u = constant (synthesizedName "Vector" (synthesizedName "Reshape" t.name))
        [(widened l.rank t.shape).length]
        (.ofInts .int64 ((widened l.rank t.shape).map Int.ofNat)) ⟨j⟩) := by
  obtain ⟨d, hd, -⟩ := getElem?_withDerived hg t (synthesizedName "Reshape" t.name)
  have hdlt := (List.getElem?_eq_some_iff.mp hd).1
  have hchanged := hu
  rw [liftTargets] at hchanged
  dsimp only at hchanged
  rw [completing, List.getElem?_modify] at hchanged
  obtain ⟨v, hv, rfl⟩ := Option.map_eq_some_iff.mp hchanged
  rcases getElem?_withVector_cases hv with hv | ⟨rfl, hvector, rfl⟩
  · rcases getElem?_withDerived_cases hv with hv | ⟨hnone, hderived, rfl⟩
    · rw [getElem?_liftTargets hv] at hu
      exact Or.inl ⟨v, hv, (Option.some.inj hu).symm⟩
    · refine Or.inr (Or.inl ⟨hnone, hderived, ?_⟩)
      rw [hderived]
      exact if_pos rfl
  · refine Or.inr (Or.inr ⟨hvector, ?_⟩)
    rw [List.length_map]
    exact if_neg (Nat.ne_of_lt hdlt)

/-- Lifting goes on to the rewiring, unless the operand has the rank already or
the name of the lifted tensor belongs to one that was moved. -/
theorem run_liftTargets {α : Type} {k : TensorId → TensorId → Step Graph α} (hg : g.Named)
    (ht : g.tensors[operand.index]? = some t)
    (hfree : ¬g.Occupied (synthesizedName "Reshape" t.name)) :
    (do let lifted ← derive operand (synthesizedName "Reshape" t.name) false
        let values ← vector (synthesizedName "Reshape" t.name)
          ((widened l.rank t.shape).map Int.ofNat)
        complete lifted (widened l.rank t.shape) l
        k lifted values) g =
      k (g.liftTargets t l).1 (g.liftTargets t l).2.1 (g.liftTargets t l).2.2 := by
  obtain ⟨u, hu, hoccupied⟩ := getElem?_withDerived hg t (synthesizedName "Reshape" t.name)
  rw [Step.run_bind_of_ok (derive_run ht _), Step.run_bind_of_ok (vector_eq _ _ _)]
  refine Step.run_seq (complete_run (getElem?_withVector hu _ _) ?_ _ _) rfl
  cases hopen : u.status.isTransformed with
  | true => exact absurd (hoccupied.mp hopen) hfree
  | false => rfl

/-- The rewiring that ends a lift. -/
def liftBefore (reader : OpId) (operand values lifted : TensorId) (name : String) :
    Step Graph OpId := do
  let reshape ← synthesize (.reshape true) name
  changeOp reshape fun r => (r.addInput operand).addInput values
  updateTensor operand (·.replaceConsumer reader reshape)
  changeTensor values (·.addConsumer reshape)
  updateOp reader (·.replaceInput operand lifted)
  changeOp reshape (·.addOutput lifted)
  changeTensor lifted (·.addProducer reshape)
  changeTensor lifted (·.addConsumer reader)
  updateOp reshape (·.setParsed)
  changeOp reader (·.addPre reshape)
  return reshape

theorem liftBefore_run (ho : g.ops[reader.index]? = some o) (hmem : operand ∈ o.inputs)
    (ht : g.tensors[operand.index]? = some t) (hreader : reader ∈ t.consumers)
    (hvalues : values.index < g.tensors.length) (hlifted : lifted.index < g.tensors.length)
    (name : String) :
    liftBefore reader operand values lifted name g =
      .ok ⟨g.ops.length⟩ (g.liftedBefore reader operand values lifted name) := by
  unfold liftBefore
  rw [run_attach ht (Tensor.replaceConsumer_eq_swapConsumer hreader)]
  refine Step.run_seq (run_changeTensor (by simpa using hvalues) _) ?_
  exact run_hang ho (Operator.replaceInput_eq_redirect hmem lifted) (by simpa using hlifted) rfl

/-- An operator that is not recorded as a reader of the operand cannot be led
away from it. -/
theorem liftBefore_unattached (ht : g.tensors[operand.index]? = some t)
    (hreader : reader ∉ t.consumers) (values lifted : TensorId) (name : String) :
    ∃ g', liftBefore reader operand values lifted name g =
      .error (.invariant (.edgeNotAttached "consumer" reader t.name)) g' :=
  synthesize_error (c := fun reshape => (·.replaceConsumer reader reshape)) ht
    (by rw [Tensor.replaceConsumer, List.idxOf?_eq_none_iff.mpr hreader])

/-! ## Lifts -/

theorem op_eq_ok : op id g = .ok o k ↔ g.ops[id.index]? = some o ∧ g = k := by
  unfold op entryAt
  rw [Step.run_bind_of_ok (Step.run_get g)]
  cases g.ops[id.index]? with
  | none => simp
  | some o' => simp

theorem tensor_eq_ok : tensor operand g = .ok t k ↔ g.tensors[operand.index]? = some t ∧ g = k := by
  unfold tensor entryAt
  rw [Step.run_bind_of_ok (Step.run_get g)]
  cases g.tensors[operand.index]? with
  | none => simp
  | some t' => simp

/-- Input slot `slot` of operator `id` holds `operand`. -/
structure HoldsAt (g : Graph) (id : OpId) (slot : Nat) (o : Operator) (operand : TensorId)
    (t : Tensor) : Prop where
  op : g.ops[id.index]? = some o
  slot : o.inputs[slot]? = some operand
  tensor : g.tensors[operand.index]? = some t

theorem HoldsAt.mem (h : g.HoldsAt id slot o operand t) : operand ∈ o.inputs :=
  List.mem_of_getElem? h.slot

theorem HoldsAt.lt (h : g.HoldsAt id slot o operand t) : operand.index < g.tensors.length :=
  (List.getElem?_eq_some_iff.mp h.tensor).1

/-- A slot holds one operand. -/
theorem HoldsAt.unique {o' : Operator} {operand' : TensorId} {t' : Tensor}
    (h : g.HoldsAt id slot o operand t) (h' : g.HoldsAt id slot o' operand' t') :
    o' = o ∧ operand' = operand ∧ t' = t := by
  obtain rfl := Option.some.inj (h.op.symm.trans h'.op)
  obtain rfl := Option.some.inj (h.slot.symm.trans h'.slot)
  exact ⟨rfl, rfl, Option.some.inj (h'.tensor.symm.trans h.tensor)⟩

section Lift

variable (h : g.HoldsAt id slot o operand t) (hparsed : o.status = .parsed)

include h hparsed

theorem liftRank_start : liftRank id slot l g =
    (do Step.expect (t.rank < l.rank) (.validation t.name (.broadcastRank t.rank l.rank))
        let lifted ← derive operand (synthesizedName "Reshape" t.name) false
        let values ← vector (synthesizedName "Reshape" t.name)
          ((widened l.rank t.shape).map Int.ofNat)
        complete lifted (widened l.rank t.shape) l
        liftBefore id operand values lifted (synthesizedName "Reshape" t.name)) g := by
  unfold liftRank
  rw [run_opening h.op hparsed (entryAt_of_getElem? h.slot) h.tensor]
  rfl

/-- An operand of the rank already is turned down. -/
theorem liftRank_of_le (hrank : l.rank ≤ t.rank) :
    liftRank id slot l g =
      .error (.input (.validation t.name (.broadcastRank t.rank l.rank))) g := by
  rw [liftRank_start h hparsed, Step.expect, if_neg (by omega)]
  rfl

variable (hg : g.Named)

include hg

theorem liftRank_of_free (hrank : t.rank < l.rank)
    (hfree : ¬g.Occupied (synthesizedName "Reshape" t.name)) :
    liftRank id slot l g =
      liftBefore id operand (g.liftTargets t l).2.1 (g.liftTargets t l).1
        (synthesizedName "Reshape" t.name) (g.liftTargets t l).2.2 := by
  rw [liftRank_start h hparsed, Step.run_bind_of_ok (Step.run_expect hrank _ _),
    run_liftTargets hg h.tensor hfree]

theorem liftRank_run (hrank : t.rank < l.rank)
    (hfree : ¬g.Occupied (synthesizedName "Reshape" t.name)) (hreader : id ∈ t.consumers) :
    liftRank id slot l g = .ok ⟨g.ops.length⟩ (g.rankLifted id operand t l) := by
  rw [liftRank_of_free h hparsed hg hrank hfree,
    liftBefore_run (o := o) (by rw [liftTargets_ops, h.op]) h.mem
      (getElem?_liftTargets h.tensor t l) (by split <;> exact hreader)
      (liftTargets_lt hg t l).2 (liftTargets_lt hg t l).1, liftTargets_ops]
  rfl

theorem liftRank_unattached (hrank : t.rank < l.rank)
    (hfree : ¬g.Occupied (synthesizedName "Reshape" t.name)) (hreader : id ∉ t.consumers) :
    ∃ g', liftRank id slot l g =
      .error (.invariant (.edgeNotAttached "consumer" id t.name)) g' := by
  rw [liftRank_of_free h hparsed hg hrank hfree]
  have hat := getElem?_liftTargets h.tensor t l
  obtain ⟨g', hrun⟩ := liftBefore_unattached hat (show id ∉ _ by split <;> exact hreader)
    (g.liftTargets t l).2.1 (g.liftTargets t l).1 (synthesizedName "Reshape" t.name)
  refine ⟨g', hrun.trans ?_⟩
  split <;> rfl

/-- The lifted tensor cannot be completed where its name is occupied. -/
theorem liftRank_occupied (hrank : t.rank < l.rank)
    (hoccupied : g.Occupied (synthesizedName "Reshape" t.name)) :
    ∃ v g', liftRank id slot l g = .error (.invariant v) g' := by
  obtain ⟨u, hu, hiff⟩ := getElem?_withDerived hg t (synthesizedName "Reshape" t.name)
  rw [liftRank_start h hparsed, Step.run_bind_of_ok (Step.run_expect hrank _ _),
    Step.run_bind_of_ok (derive_run h.tensor _), Step.run_bind_of_ok (vector_eq _ _ _)]
  obtain ⟨v, g', hrun⟩ := complete_error (getElem?_withVector hu (synthesizedName "Reshape" t.name)
    ((widened l.rank t.shape).map Int.ofNat)) (hiff.mpr hoccupied) (widened l.rank t.shape) l
  exact ⟨v, g', Step.run_bind_of_error hrun⟩

end Lift

theorem require_eq_ok {condition : Prop} [Decidable condition] {v : Violation} {a : Unit} :
    (Step.require condition v : Step Graph Unit) g = .ok a k ↔ condition ∧ g = k := by
  by_cases hc : condition
  · rw [Step.run_require hc]
    simp [hc]
  · rw [Step.require, if_neg hc]
    simp [hc]

theorem entryAt_eq_ok {α : Type} {xs : List α} {i : Nat} {a : α} :
    (liftM (entryAt xs i) : Step Graph α) g = .ok a k ↔ xs[i]? = some a ∧ g = k := by
  unfold entryAt
  cases xs[i]? with
  | none => simp
  | some b => simp

/-- A rewrite that went through found its operator ready, and the operand. -/
theorem opening_eq_ok {α : Type} {ready : Operator → Prop} [DecidablePred ready]
    {unready : Operator → Violation} {operands : Operator → List TensorId}
    {rest : TensorId → Tensor → Step Graph α} {a : α}
    (h : (do
      let operator ← op id
      Step.require (ready operator) (unready operator)
      let x ← entryAt (operands operator) slot
      let u ← tensor x
      rest x u : Step Graph α) g = .ok a k) :
    ∃ o operand t, g.ops[id.index]? = some o ∧ ready o ∧ (operands o)[slot]? = some operand ∧
      g.tensors[operand.index]? = some t ∧ rest operand t g = .ok a k := by
  obtain ⟨o, _, hop, h⟩ := Step.bind_eq_ok.mp h
  obtain ⟨ho, rfl⟩ := op_eq_ok.mp hop
  obtain ⟨_, _, hrequire, h⟩ := Step.bind_eq_ok.mp h
  obtain ⟨hready, rfl⟩ := require_eq_ok.mp hrequire
  obtain ⟨operand, _, hpick, h⟩ := Step.bind_eq_ok.mp h
  obtain ⟨hslot, rfl⟩ := entryAt_eq_ok.mp hpick
  obtain ⟨t, _, htensor, h⟩ := Step.bind_eq_ok.mp h
  obtain ⟨ht, rfl⟩ := tensor_eq_ok.mp htensor
  exact ⟨o, operand, t, ho, hready, hslot, ht, h⟩

/-- A lift that went through: what it needed, and what it did. -/
theorem liftRank_eq_ok (hg : g.Named) {reshape : OpId} (h : liftRank id slot l g = .ok reshape k) :
    ∃ o operand t, g.HoldsAt id slot o operand t ∧ o.status = .parsed ∧ t.rank < l.rank ∧
      ¬g.Occupied (synthesizedName "Reshape" t.name) ∧ id ∈ t.consumers ∧
      reshape = ⟨g.ops.length⟩ ∧ k = g.rankLifted id operand t l := by
  have hrun := h
  unfold liftRank at h
  obtain ⟨o, operand, t, ho, hparsed, hslot, ht, -⟩ := opening_eq_ok h
  have hat : g.HoldsAt id slot o operand t := ⟨ho, hslot, ht⟩
  have hrank : t.rank < l.rank := by
    by_contra hle
    rw [liftRank_of_le hat hparsed (by omega)] at hrun
    cases hrun
  have hfree : ¬g.Occupied (synthesizedName "Reshape" t.name) := fun hoccupied => by
    obtain ⟨v, g', herror⟩ := liftRank_occupied hat hparsed hg hrank hoccupied
    rw [herror] at hrun
    cases hrun
  have hreader : id ∈ t.consumers := by
    by_contra hnot
    obtain ⟨g', herror⟩ := liftRank_unattached hat hparsed hg hrank hfree hnot
    rw [herror] at hrun
    cases hrun
  rw [liftRank_run hat hparsed hg hrank hfree hreader] at hrun
  cases hrun
  exact ⟨o, operand, t, hat, hparsed, hrank, hfree, hreader, rfl, rfl⟩

/-! ## Before anything is moved -/

/-- Everything was read, and nothing was moved. -/
structure Unmoved (g : Graph) : Prop where
  tensors : ∀ t ∈ g.tensors, t.status = .parsed
  ops : ∀ o ∈ g.ops, o.status = .parsed

theorem Unmoved.not_occupied (h : g.Unmoved) (name : String) : ¬g.Occupied name := by
  rintro ⟨e, u, -, hu, hmoved⟩
  rw [h.tensors u (List.mem_of_getElem? hu)] at hmoved
  cases hmoved

theorem HoldsAt.parsed (h : g.HoldsAt id slot o operand t) (hg : g.Unmoved) :
    o.status = .parsed := hg.ops o (List.mem_of_getElem? h.op)

/-- A lift changes edges only, once its tensors are there. -/
theorem bares_liftedBefore (g : Graph) (reader : OpId) (operand values lifted : TensorId)
    (name : String) : (g.liftedBefore reader operand values lifted name).bares = g.bares := by
  unfold liftedBefore bares
  dsimp only
  rw [map_modify_of_eq, map_modify_of_eq, map_modify_of_eq] <;> exact fun _ => rfl

theorem Unmoved.rankLifted (hg : g.Unmoved) (hnamed : g.Named) (id : OpId)
    (operand : TensorId) (t : Tensor) (l : Layout) :
    (g.rankLifted id operand t l).Unmoved where
  tensors := by
    have htargets : ∀ u ∈ (g.liftTargets t l).2.2.bares, u.status = .parsed := by
      intro b hb
      obtain ⟨u, hu, rfl⟩ := List.mem_map.mp hb
      obtain ⟨j, hj⟩ := List.getElem?_of_mem hu
      obtain ⟨v, hv, rfl⟩ | ⟨-, -, rfl⟩ | ⟨-, rfl⟩ := liftTargets_cases hnamed hj
      · split
        · rfl
        · exact hg.tensors v (List.mem_of_getElem? hv)
      · rfl
      · rfl
    intro u hu
    refine htargets u.bare ?_
    rw [← bares_liftedBefore _ id operand _ _ (synthesizedName "Reshape" t.name)]
    exact List.mem_map_of_mem hu
  ops := by
    intro o ho
    obtain ⟨i, hi⟩ := List.getElem?_of_mem ho
    obtain ⟨o', ho', rfl⟩ | ⟨-, rfl⟩ := getElem?_modify_concat_cases hi
    · have hparsed := hg.ops o' (List.mem_of_getElem? (liftTargets_ops (g := g) t l ▸ ho'))
      split <;> exact hparsed
    · rfl

/-! ## Turns -/

/-- The graph with a new transpose before `reader`, which reads it in the first
slot that held `operand`. -/
def slotSpliced (g : Graph) (reader : OpId) (operand : TensorId) (t : Tensor) (l : Layout) :
    Graph :=
  let name := synthesizedName "Transposed" t.name
  let derived := g.withDerived t name
  (derived.2.completing derived.1 (permutedDims l.inverse.perm t.shape) l.inverse).turnedBefore
    reader operand derived.1 l.inverse.perm name

section Turn

variable (h : g.HoldsAt id slot o operand t) (hparsed : o.status.isParsed = true)
  (hl : t.layout = some l) (hrank : t.rank = l.rank)

include h hparsed hl hrank

theorem preserveInput_start : preserveInput id slot g =
    (match producerNamed? g (synthesizedName "Transposed" t.name) with
    | some (existing, turn) => do
        readInstead id operand existing
        let _ ← op turn
        return turn
    | none => do
        let moved ← derive operand (synthesizedName "Transposed" t.name) false
        complete moved (permutedDims l.inverse.perm t.shape) l.inverse
        transposeBefore id operand moved l.inverse.perm
          (synthesizedName "Transposed" t.name)) g := by
  have hshape : l.inverse.permute t.shape = .ok (permutedDims l.inverse.perm t.shape) :=
    l.inverse.permute_eq (by rw [Layout.rank_inverse]; exact hrank)
  unfold preserveInput
  rw [run_opening h.op hparsed (entryAt_of_getElem? h.slot) h.tensor, layoutOf, hl,
    Step.run_bind_of_ok (Step.run_lift_ok _ _), hshape,
    Step.run_bind_of_ok (Step.run_liftViolation_ok _ _)]
  refine (Step.run_bind_of_ok (Step.run_get g)).trans ?_
  cases producerNamed? g (synthesizedName "Transposed" t.name) <;> rfl

/-- The transpose that is there for the operand is shared. -/
theorem preserveInput_shared {turn : OpId}
    (hnamed : producerNamed? g (synthesizedName "Transposed" t.name) = some (moved, turn))
    (hturn : turn.index < g.ops.length) :
    preserveInput id slot g = .ok turn (g.redirecting id operand moved) := by
  obtain ⟨u, -, hu, -⟩ := producerNamed?_eq_some.mp hnamed
  have hturn' : turn.index < (g.redirecting id operand moved).ops.length := by
    simpa [redirecting] using hturn
  rw [preserveInput_start h hparsed hl hrank, hnamed]
  dsimp only
  rw [Step.run_bind_of_ok (readInstead_eq h.op h.mem h.lt (List.getElem?_eq_some_iff.mp hu).1),
    Step.run_bind_of_ok (run_op (List.getElem?_eq_getElem hturn'))]
  rfl

variable (hg : g.Named)

include hg

theorem preserveInput_of_free
    (hnamed : producerNamed? g (synthesizedName "Transposed" t.name) = none)
    (hfree : ¬g.Occupied (synthesizedName "Transposed" t.name)) :
    preserveInput id slot g =
      transposeBefore id operand (g.withDerived t (synthesizedName "Transposed" t.name)).1
        l.inverse.perm (synthesizedName "Transposed" t.name)
        ((g.withDerived t (synthesizedName "Transposed" t.name)).2.completing
          (g.withDerived t (synthesizedName "Transposed" t.name)).1
          (permutedDims l.inverse.perm t.shape) l.inverse) := by
  obtain ⟨u, hu, hoccupied⟩ := getElem?_withDerived hg t
    (synthesizedName "Transposed" t.name)
  have hopen : u.status.isTransformed = false := by
    cases hopen : u.status.isTransformed with
    | true => exact absurd (hoccupied.mp hopen) hfree
    | false => rfl
  rw [preserveInput_start h hparsed hl hrank, hnamed]
  dsimp only
  rw [Step.run_bind_of_ok (derive_run h.tensor _), Step.run_bind_of_ok (complete_run hu hopen _ _)]

theorem preserveInput_spliced
    (hnamed : producerNamed? g (synthesizedName "Transposed" t.name) = none)
    (hfree : ¬g.Occupied (synthesizedName "Transposed" t.name)) (hreader : id ∈ t.consumers) :
    preserveInput id slot g = .ok ⟨g.ops.length⟩ (g.slotSpliced id operand t l) := by
  obtain ⟨u, hu, -⟩ := getElem?_withDerived hg t (synthesizedName "Transposed" t.name)
  obtain ⟨t', ht', hconsumers, -⟩ := getElem?_completing h.tensor t
    (synthesizedName "Transposed" t.name) (permutedDims l.inverse.perm t.shape) l.inverse
  rw [preserveInput_of_free h hparsed hl hrank hg hnamed hfree,
    transposeBefore_eq (by rw [completing, withDerived_ops]; exact h.op) h.mem ht'
      (by rw [hconsumers]; exact hreader)
      (by simpa [completing] using (List.getElem?_eq_some_iff.mp hu).1)]
  exact congrArg (fun n => EStateM.Result.ok (OpId.mk n) _)
    (congrArg List.length (withDerived_ops t _))

end Turn

theorem layoutOf_eq_ok :
    (liftM (layoutOf t) : Step Graph Layout) g = .ok l k ↔ t.layout = some l ∧ g = k := by
  unfold layoutOf
  cases t.layout with
  | none => simp
  | some l' => simp

/-- A turn that went through needed an operand that has a layout, and its
rank. -/
theorem preserveInput_eq_ok {turn : OpId} (h : preserveInput id slot g = .ok turn k) :
    ∃ o operand t l, g.HoldsAt id slot o operand t ∧ o.status.isParsed = true ∧
      t.layout = some l ∧ t.rank = l.rank := by
  unfold preserveInput at h
  obtain ⟨o, operand, t, ho, hparsed, hslot, ht, h⟩ := opening_eq_ok h
  obtain ⟨l, _, hlayout, h⟩ := Step.bind_eq_ok.mp h
  obtain ⟨hl, rfl⟩ := layoutOf_eq_ok.mp hlayout
  obtain ⟨shape, _, hshape, -⟩ := Step.bind_eq_ok.mp h
  refine ⟨o, operand, t, l, ⟨ho, hslot, ht⟩, hparsed, hl, ?_⟩
  by_contra hne
  have hbroken : l.inverse.permute t.shape = .error (.shapeRank l.inverse t.shape.length) :=
    l.inverse.permute_of_length_ne (by rw [Layout.rank_inverse]; exact hne)
  rw [hbroken] at hshape
  cases hshape

end Graph

end Relayout
