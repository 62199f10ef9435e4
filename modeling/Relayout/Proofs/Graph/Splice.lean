/-
# What a splice does

Each splice as an equation: under what its callers promise, it goes through and
leaves the graph that is written down here.  All of them change edges, one
operand of one operator, and add at most one tensor and one transpose.
-/
import Relayout.Graph.Adaptation
import Relayout.Proofs.Graph.Requests

namespace Relayout

theorem idxOf?_of_mem {α : Type} [DecidableEq α] {xs : List α} {a : α} (h : a ∈ xs) :
    xs.idxOf? a = some (xs.idxOf a) := by
  obtain ⟨i, hi⟩ := Option.isSome_iff_exists.mp (List.isSome_idxOf?.mpr h)
  rw [hi, List.idxOf_eq_getD_idxOf?, hi, Option.getD_some]

namespace Tensor

/-- A consumer gives its place to another operator. -/
def swapConsumer (old new : OpId) (t : Tensor) : Tensor :=
  { t with consumers := t.consumers.set (t.consumers.idxOf old) new }

/-- A producer gives its place to another operator. -/
def swapProducer (old new : OpId) (t : Tensor) : Tensor :=
  { t with producers := t.producers.set (t.producers.idxOf old) new }

/-- A new tensor with element type and quantization of another. -/
def derived (name : String) (t : Tensor) (id : TensorId) : Tensor :=
  { fresh name none none false id with
    elementType := t.elementType, scale := t.scale, zeroPoint := t.zeroPoint }

/-- A synthesized tensor gets its final shape and its layout. -/
def completed (shape : List Nat) (l : Layout) (t : Tensor) : Tensor :=
  { t with shape := shape, layout := some l, status := .parsed }

variable {t : Tensor} {old new : OpId}

theorem replaceConsumer_eq_swapConsumer (h : old ∈ t.consumers) :
    t.replaceConsumer old new = .ok (t.swapConsumer old new) := by
  rw [replaceConsumer, idxOf?_of_mem h]
  rfl

theorem replaceProducer_eq_swapProducer (h : old ∈ t.producers) :
    t.replaceProducer old new = .ok (t.swapProducer old new) := by
  rw [replaceProducer, idxOf?_of_mem h]
  rfl

end Tensor

namespace Operator

variable {o : Operator} {old : TensorId}

/-- Another tensor in the first input slot. -/
def withInput (new : TensorId) (o : Operator) : Operator :=
  { o with inputs := o.inputs.set 0 new }

/-- Another tensor in the first output slot. -/
def withOutput (new : TensorId) (o : Operator) : Operator :=
  { o with outputs := o.outputs.set 0 new }

theorem idxOf?_head {ids : List TensorId} (h : ids[0]? = some old) : ids.idxOf? old = some 0 := by
  cases ids with
  | nil => cases h
  | cons id rest =>
      cases h
      simp [List.idxOf?_cons]

theorem replaceInput_eq_withInput (h : o.inputs[0]? = some old) (new : TensorId) :
    o.replaceInput old new = .ok (o.withInput new) := by
  rw [replaceInput, idxOf?_head h]
  rfl

theorem replaceOutput_eq_withOutput (h : o.outputs[0]? = some old) (new : TensorId) :
    o.replaceOutput old new = .ok (o.withOutput new) := by
  rw [replaceOutput, idxOf?_head h]
  rfl

/-- A transpose between two tensors. -/
def turn (perm : List Nat) (name : String) (source target : TensorId) : Operator where
  index := none
  name := name
  kind := .transpose perm
  inputs := [source]
  outputs := [target]
  pre := []
  post := []
  status := .parsed

end Operator

namespace Graph

variable {g : Graph} {reader writer : OpId} {operand moved : TensorId} {o : Operator} {t : Tensor}

/-! ## Rewiring -/

/-- The graph in which `reader` reads `moved` in place of `operand`. -/
def readingInstead (g : Graph) (reader : OpId) (operand moved : TensorId) : Graph :=
  { g with
    tensors := (g.tensors.modify operand.index (·.removeConsumer reader)).modify moved.index
      (·.addConsumer reader)
    ops := g.ops.modify reader.index (·.withInput moved) }

/-- The graph with a transpose from `operand` to `moved`, which `reader` reads. -/
def transposedBefore (g : Graph) (reader : OpId) (operand moved : TensorId) (perm : List Nat)
    (name : String) : Graph :=
  { g with
    tensors := (g.tensors.modify operand.index (·.swapConsumer reader ⟨g.ops.length⟩)).modify
      moved.index fun t => (t.addProducer ⟨g.ops.length⟩).addConsumer reader
    ops := (g.ops.modify reader.index fun o => (o.withInput moved).addPre ⟨g.ops.length⟩) ++
      [.turn perm name operand moved]
    created := g.created ++ [⟨g.ops.length⟩] }

/-- The graph with a transpose from `moved`, which `writer` writes, to
`operand`. -/
def transposedAfter (g : Graph) (writer : OpId) (operand moved : TensorId) (perm : List Nat)
    (name : String) : Graph :=
  { g with
    tensors := (g.tensors.modify operand.index (·.swapProducer writer ⟨g.ops.length⟩)).modify
      moved.index fun t => (t.addProducer writer).addConsumer ⟨g.ops.length⟩
    ops := (g.ops.modify writer.index fun o => (o.withOutput moved).addPost ⟨g.ops.length⟩) ++
      [.turn perm name moved operand]
    created := g.created ++ [⟨g.ops.length⟩] }

section Splicing

variable {f : Operator → Operator}

/-- A splice begins with an operator that takes its place at an end of the
operand. -/
theorem run_attach {α : Type} {kind : Kind} {c : OpId → Tensor → Except Violation Tensor}
    {swap : OpId → Tensor → Tensor} {rest : OpId → Step Graph α}
    (ht : g.tensors[operand.index]? = some t)
    (hc : c ⟨g.ops.length⟩ t = .ok (swap ⟨g.ops.length⟩ t)) (name : String) :
    (do
      let spliced ← synthesize kind name
      changeOp spliced f
      updateTensor operand (c spliced)
      rest spliced) g = rest ⟨g.ops.length⟩ { g with
        tensors := g.tensors.modify operand.index (swap ⟨g.ops.length⟩)
        ops := g.ops ++ [f (.fresh none name kind)]
        created := g.created ++ [⟨g.ops.length⟩] } := by
  refine Step.run_seq (run_synthesize _ _ g) ?_
  refine Step.run_seq (run_changeOp (by simp) _) ?_
  refine Step.run_seq (run_updateTensor (f := swap ⟨g.ops.length⟩) ht hc) ?_
  dsimp only
  rw [modify_concat]

/-- A splice ends with its operator, the last one, between `moved` and its
owner, which it hangs from. -/
theorem run_hang {ts : List Tensor} {xs : List Operator} {created : List OpId}
    {spliced : Operator} {owner : OpId} {replace : Operator → Except Violation Operator}
    {last hang : Operator → Operator} {link link' : Tensor → Tensor}
    (ho : xs[owner.index]? = some o) (hf : replace o = .ok (f o)) (hmoved : moved.index < ts.length)
    (hstatus : (last spliced).status = .inited) :
    (do
      updateOp owner replace
      changeOp ⟨xs.length⟩ last
      changeTensor moved link
      changeTensor moved link'
      updateOp ⟨xs.length⟩ (·.setParsed)
      changeOp owner hang
      return (⟨xs.length⟩ : OpId))
      { g with tensors := ts, ops := xs ++ [spliced], created := created } =
      .ok ⟨xs.length⟩ { g with
        tensors := ts.modify moved.index (link' ∘ link)
        ops := xs.modify owner.index (hang ∘ f) ++ [{ last spliced with status := .parsed }]
        created := created } := by
  have hlt := (List.getElem?_eq_some_iff.mp ho).1
  refine Step.run_seq (run_updateOp (f := f) (o := o)
    (by rw [List.getElem?_append_left hlt, ho]) hf) ?_
  dsimp only
  rw [modify_append_left hlt]
  refine Step.run_seq (run_changeOp (by simp) _) ?_
  dsimp only
  rw [modify_last (by simp)]
  refine Step.run_seq (run_changeTensor (by simpa using hmoved) _) ?_
  refine Step.run_seq (run_changeTensor (by simpa using hmoved) _) ?_
  dsimp only
  refine Step.run_seq (run_updateOp (f := fun o => { o with status := .parsed })
    (o := last spliced) (by simp) (by
      rw [Operator.setParsed, Operator.advance, hstatus]
      rfl)) ?_
  dsimp only
  rw [modify_last (by simp)]
  refine Step.run_seq (run_changeOp (by simp; omega) _) ?_
  dsimp only
  rw [modify_append_left (by simpa using hlt), List.modify_modify_eq, List.modify_modify_eq]
  rfl

/-- Whatever replacing the operand in the inputs of the reader comes to. -/
theorem readInstead_of_replace (ho : g.ops[reader.index]? = some o)
    (hf : o.replaceInput operand moved = .ok (f o)) (hoperand : operand.index < g.tensors.length)
    (hmoved : moved.index < g.tensors.length) :
    readInstead reader operand moved g = .ok () { g with
      tensors := (g.tensors.modify operand.index (·.removeConsumer reader)).modify moved.index
        (·.addConsumer reader)
      ops := g.ops.modify reader.index f } := by
  unfold readInstead
  refine Step.run_seq (run_changeTensor hoperand _) ?_
  refine Step.run_seq (run_updateOp (f := f) ho hf) ?_
  exact run_changeTensor (by simpa using hmoved) _

theorem transposeBefore_of_replace (ho : g.ops[reader.index]? = some o)
    (hf : o.replaceInput operand moved = .ok (f o)) (ht : g.tensors[operand.index]? = some t)
    (hreader : reader ∈ t.consumers) (hmoved : moved.index < g.tensors.length) (perm : List Nat)
    (name : String) :
    transposeBefore reader operand moved perm name g = .ok ⟨g.ops.length⟩ { g with
      tensors := (g.tensors.modify operand.index (·.swapConsumer reader ⟨g.ops.length⟩)).modify
        moved.index fun t => (t.addProducer ⟨g.ops.length⟩).addConsumer reader
      ops := (g.ops.modify reader.index fun o => (f o).addPre ⟨g.ops.length⟩) ++
        [.turn perm name operand moved]
      created := g.created ++ [⟨g.ops.length⟩] } := by
  unfold transposeBefore
  rw [run_attach ht (Tensor.replaceConsumer_eq_swapConsumer hreader)]
  exact run_hang ho hf (by simpa using hmoved) rfl

end Splicing

theorem readInstead_run (ho : g.ops[reader.index]? = some o) (h0 : o.inputs[0]? = some operand)
    (hoperand : operand.index < g.tensors.length) (hmoved : moved.index < g.tensors.length) :
    readInstead reader operand moved g = .ok () (g.readingInstead reader operand moved) :=
  readInstead_of_replace ho (Operator.replaceInput_eq_withInput h0 moved) hoperand hmoved

theorem transposeBefore_run (ho : g.ops[reader.index]? = some o)
    (h0 : o.inputs[0]? = some operand) (ht : g.tensors[operand.index]? = some t)
    (hreader : reader ∈ t.consumers) (hmoved : moved.index < g.tensors.length) (perm : List Nat)
    (name : String) :
    transposeBefore reader operand moved perm name g =
      .ok ⟨g.ops.length⟩ (g.transposedBefore reader operand moved perm name) :=
  transposeBefore_of_replace ho (Operator.replaceInput_eq_withInput h0 moved) ht hreader hmoved
    perm name

theorem transposeAfter_run (ho : g.ops[writer.index]? = some o)
    (h0 : o.outputs[0]? = some operand) (ht : g.tensors[operand.index]? = some t)
    (hwriter : writer ∈ t.producers) (hmoved : moved.index < g.tensors.length) (perm : List Nat)
    (name : String) :
    transposeAfter writer operand moved perm name g =
      .ok ⟨g.ops.length⟩ (g.transposedAfter writer operand moved perm name) := by
  unfold transposeAfter
  rw [run_attach ht (Tensor.replaceProducer_eq_swapProducer hwriter)]
  exact run_hang ho (Operator.replaceOutput_eq_withOutput h0 moved) (by simpa using hmoved) rfl

/-! ## The opening of a rewrite -/

/-- Every rewrite begins with its operator, which has to be ready for it, and
with the operand in a slot of it. -/
theorem run_opening {α : Type} {id : OpId} {ready : Operator → Prop} [DecidablePred ready]
    {unready : Operator → Violation} {pick : Operator → Except Violation TensorId}
    {rest : TensorId → Tensor → Step Graph α} (ho : g.ops[id.index]? = some o) (hready : ready o)
    (hpick : pick o = .ok operand) (ht : g.tensors[operand.index]? = some t) :
    (do
      let operator ← op id
      Step.require (ready operator) (unready operator)
      let x ← pick operator
      let u ← tensor x
      rest x u) g = rest operand t g := by
  rw [Step.run_bind_of_ok (run_op ho), Step.run_bind_of_ok (Step.run_require hready _ g), hpick,
    Step.run_bind_of_ok (Step.run_liftViolation_ok _ _), Step.run_bind_of_ok (run_tensor ht)]

/-! ## Synthesized tensors -/

/-- The graph with the tensor of a synthesized name, which takes element type
and quantization from `t` if it is new, and the identifier of that tensor. -/
def withDerived (g : Graph) (t : Tensor) (name : String) : TensorId × Graph :=
  match g.lookup? name with
  | some id => (id, g)
  | none =>
      (⟨g.tensors.length⟩, g.adding (t.derived name ⟨g.tensors.length⟩))

/-- The graph in which a synthesized tensor has its final shape and its
layout. -/
def completing (g : Graph) (id : TensorId) (shape : List Nat) (l : Layout) : Graph :=
  { g with tensors := g.tensors.modify id.index (·.completed shape l) }

theorem derive_run (ht : g.tensors[operand.index]? = some t) (name : String) :
    derive operand name false g = .ok (g.withDerived t name).1 (g.withDerived t name).2 := by
  unfold derive registered withDerived
  rw [Step.run_bind_of_ok (Step.run_get g)]
  cases g.lookup? name with
  | some id => rfl
  | none =>
      dsimp only
      rw [bind_assoc, Step.run_bind_of_ok (run_tensor ht)]
      rfl

theorem complete_run {id : TensorId} (ht : g.tensors[id.index]? = some t)
    (hopen : t.status.isTransformed = false) (shape : List Nat) (l : Layout) :
    complete id shape l g = .ok () (g.completing id shape l) := by
  have hlt := (List.getElem?_eq_some_iff.mp ht).1
  have hstage : t.status.stage ≤ 1 := by
    simp only [Status.isTransformed, decide_eq_false_iff_not] at hopen
    omega
  unfold complete
  refine Step.run_seq (run_changeTensor hlt _) ?_
  refine Step.run_seq (run_updateTensor (f := fun t => { t with layout := some l })
    (t := { t with shape := shape }) (by simp [ht]) ?_) ?_
  · rw [Tensor.setLayout, if_neg (by simp [hopen])]
  refine (run_updateTensor (f := fun t => { t with status := .parsed })
    (t := { t with shape := shape, layout := some l }) (by simp [ht]) ?_).trans ?_
  · rw [Tensor.setParsed, Tensor.advance, Status.advance_of_le hstage]
    rfl
  · dsimp only
    rw [List.modify_modify_eq, List.modify_modify_eq]
    rfl

/-- A tensor that was moved cannot be completed. -/
theorem complete_error {id : TensorId} (ht : g.tensors[id.index]? = some t)
    (hmoved : t.status.isTransformed = true) (shape : List Nat) (l : Layout) :
    ∃ v g', complete id shape l g = .error (.invariant v) g' := by
  have hlt := (List.getElem?_eq_some_iff.mp ht).1
  obtain ⟨g', hrun⟩ : ∃ g', updateTensor id (·.setLayout l)
      { g with tensors := g.tensors.modify id.index fun t => { t with shape := shape } } =
        .error (.invariant (.layoutAfterTransform t.name)) g' :=
    run_updateTensor_error (t := { t with shape := shape }) (by simp [ht]) (if_pos hmoved)
  refine ⟨.layoutAfterTransform t.name, g', ?_⟩
  unfold complete
  rw [Step.run_bind_of_ok (run_changeTensor hlt _)]
  exact Step.run_bind_of_error hrun

end Graph

end Relayout
