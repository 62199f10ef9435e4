/-
# The emitted graph

Emission writes down `Graph.targetOf` and checks it: nothing but a check stops
it.  For an adapted graph the nodes are the lowered calls, and every tensor is
one of the graph or the other form of one.
-/
import Relayout.Proofs.Graph.Arrangement

namespace Relayout

/-- Checking all members of a list, and what comes of it. -/
theorem mapM_checked {α β : Type} {F : α → Except ConversionError β}
    {check : α → Except ConversionError Unit} {f : α → β} {xs : List α} {ys : List β}
    (hF : ∀ a ∈ xs, F a = do check a; return f a) :
    xs.mapM F = .ok ys ↔ (∀ a ∈ xs, check a = .ok ()) ∧ ys = xs.map f := by
  induction xs generalizing ys with
  | nil => simp [pure, Except.pure, eq_comm]
  | cons a xs ih =>
      have ih : ∀ ys, xs.mapM F = .ok ys ↔ _ :=
        fun _ => ih fun b hb => hF b (List.mem_cons_of_mem _ hb)
      simp only [List.mapM_cons, hF a List.mem_cons_self, bind_eq_ok, ih, List.mem_cons,
        forall_eq_or_imp, List.map_cons, pure, Except.pure, Except.ok.injEq]
      constructor
      · rintro ⟨_, ⟨u, hcheck, rfl⟩, _, ⟨hall, rfl⟩, rfl⟩
        exact ⟨⟨hcheck, hall⟩, rfl⟩
      · rintro ⟨⟨hcheck, hall⟩, rfl⟩
        exact ⟨_, ⟨(), hcheck, rfl⟩, _, ⟨hall, rfl⟩, rfl⟩

namespace Tensor

/-- The converted form of a tensor. -/
def node (t : Tensor) : Target.TensorNode := t.nodeWith t.data

/-- What is taken for a constant has data, and nothing else has. -/
def Settled (t : Tensor) : Prop := t.isInitializer = t.data.isSome

theorem rendered_of_settled {t : Tensor} (h : t.Settled) :
    t.rendered = do Target.checkTensor t.node; return t.node := by
  have hdata : t.emittedData = .ok t.data := by
    unfold emittedData
    rw [h]
    cases t.data <;> rfl
  rw [rendered_eq, hdata]
  dsimp only
  rw [← node]
  cases Target.checkTensor t.node <;> rfl

end Tensor

namespace Graph

variable {g k : Graph} {n : Nat} {name : String} {order : List OpId} {calls : List Call}
  {tag : String → Option Layout}

/-- All tensors that are mentioned, with their roles, converted. -/
def mentioned (g : Graph) (order : List OpId) : List (TensorId × Tensor) :=
  (referenced g.inputs (order.filterMap g.opAt?)).filterMap g.located?

/-- The converted graph. -/
def targetOf (g : Graph) (name : String) (order : List OpId) : Target.Graph :=
  let tensors := (g.mentioned order).map fun e => (g.role e.1 e.2.node, e.2.node)
  { name := name
    nodes := g.nodesAt order
    initializers := inRole .initializer tensors
    inputs := inRole .input tensors
    outputs := (g.outputs.filterMap g.located?).map fun e => e.2.node
    valueInfos := inRole .value tensors }

theorem mem_of_located? {id : TensorId} {e : TensorId × Tensor} (h : g.located? id = some e) :
    e.1 = id ∧ g.tensors[id.index]? = some e.2 := by
  obtain ⟨t, ht, rfl⟩ := Option.map_eq_some_iff.mp h
  exact ⟨rfl, ht⟩

/-- Emission succeeds exactly if every check does. -/
theorem rendering_eq_ok (hsettled : ∀ t ∈ g.tensors, t.Settled) {graph : Target.Graph} :
    g.rendering name order = .ok graph ↔
      (∀ node ∈ g.nodesAt order, Target.checkNode node = .ok ()) ∧
        (∀ e ∈ g.mentioned order, Target.checkTensor e.2.node = .ok ()) ∧
        (∀ e ∈ g.outputs.filterMap g.located?, Target.checkTensor e.2.node = .ok ()) ∧
        Target.checkGraph (g.targetOf name order) = .ok () ∧ graph = g.targetOf name order := by
  have hentry : ∀ ids : List TensorId, ∀ e ∈ ids.filterMap g.located?, e.2.Settled :=
    fun ids e he => by
      obtain ⟨id, -, hid⟩ := List.mem_filterMap.mp he
      exact hsettled _ (List.mem_of_getElem? (mem_of_located? hid).2)
  have hnodes : ∀ ys, (order.filterMap g.opAt?).mapM (fun o => do
      Target.checkNode (g.nodeOf o)
      return g.nodeOf o) = Except.ok ys ↔ _ := fun _ => mapM_checked fun _ _ => rfl
  have htensors : ∀ ys, (g.mentioned order).mapM (fun e => do
      let node ← e.2.rendered
      return (g.role e.1 node, node)) = .ok ys ↔
        (∀ e ∈ g.mentioned order, Target.checkTensor e.2.node = .ok ()) ∧
          ys = (g.mentioned order).map fun e => (g.role e.1 e.2.node, e.2.node) :=
    fun _ => mapM_checked fun e he => by
      rw [Tensor.rendered_of_settled (hentry _ e he)]
      cases Target.checkTensor e.2.node <;> rfl
  have houtputs : ∀ ys, (g.outputs.filterMap g.located?).mapM (fun e => e.2.rendered) = .ok ys ↔
      (∀ e ∈ g.outputs.filterMap g.located?, Target.checkTensor e.2.node = .ok ()) ∧
        ys = (g.outputs.filterMap g.located?).map fun e => e.2.node :=
    fun _ => mapM_checked fun e he => Tensor.rendered_of_settled (hentry _ e he)
  unfold rendering
  simp only [bind_eq_ok]
  constructor
  · rintro ⟨nodes, hn, tensors, ht, outputs, ho, ⟨⟩, hc, hgraph⟩
    obtain ⟨hnodes', rfl⟩ := (hnodes _).mp hn
    obtain ⟨htensors', rfl⟩ := (htensors _).mp ht
    obtain ⟨houtputs', rfl⟩ := (houtputs _).mp ho
    refine ⟨fun node hnode => ?_, htensors', houtputs', hc, (Except.ok.inj hgraph).symm⟩
    obtain ⟨o, ho, rfl⟩ := List.mem_map.mp hnode
    exact hnodes' o ho
  · rintro ⟨hn, ht, ho, hc, rfl⟩
    exact ⟨_, (hnodes _).mpr ⟨fun o ho => hn _ (List.mem_map_of_mem ho), rfl⟩, _,
      (htensors _).mpr ⟨ht, rfl⟩, _, (houtputs _).mpr ⟨ho, rfl⟩, (), hc, rfl⟩

/-! ## Lowered graphs -/

/-- The lowering of call number `i`. -/
def loweredAt (g : Graph) (calls : List Call) (tag : String → Option Layout) (i : Nat) :
    List Target.Node :=
  match calls[i]?, g.ops[i]? with
  | some c, some o => c.block tag (Call.turnedBefore calls i) (g.nodeOf o)
  | _, _ => []

/-- The lowering of all calls. -/
def lowered (g : Graph) (calls : List Call) (tag : String → Option Layout) : List Target.Node :=
  (List.range g.ops.length).flatMap (g.loweredAt calls tag)

/-- An operator between its splices. -/
def spliced (k : Graph) (i : Nat) : List OpId :=
  match k.ops[i]? with
  | some o => o.pre ++ [⟨i⟩] ++ o.post
  | none => []

theorem nodesAt_append (k : Graph) (ps qs : List OpId) :
    k.nodesAt (ps ++ qs) = k.nodesAt ps ++ k.nodesAt qs := by
  simp [nodesAt]

theorem nodesAt_flatMap {α : Type} (k : Graph) (xs : List α) (f : α → List OpId) :
    k.nodesAt (xs.flatMap f) = xs.flatMap fun a => k.nodesAt (f a) := by
  induction xs with
  | nil => rfl
  | cons a xs ih => rw [List.flatMap_cons, nodesAt_append, ih, List.flatMap_cons]

/-- The order of emission is one block after another. -/
theorem Arranged.emitted (h : Arranged g calls tag g.ops.length k) (hg : g.Readable calls tag) :
    emissionOrder k = .ok ((List.range g.ops.length).flatMap k.spliced) ∧
      k.nodesAt ((List.range g.ops.length).flatMap k.spliced) = g.lowered calls tag := by
  have hblock : ∀ i ∈ List.range g.ops.length,
      flatten k.ops k.ops.length ⟨i⟩ = .ok (k.spliced i) ∧
        k.nodesAt (k.spliced i) = g.loweredAt calls tag i := by
    intro i hi
    have hlt := List.mem_range.mp hi
    have hc := List.getElem?_eq_getElem (hg.length ▸ hlt)
    obtain ⟨o, o', ho, ho', hleaves, hblock⟩ := h.done hlt hc
    have hlen : i < k.ops.length := Nat.lt_of_lt_of_le hlt h.length
    obtain ⟨fuel, hfuel⟩ : ∃ fuel, k.ops.length = fuel + 1 :=
      ⟨k.ops.length - 1, (Nat.sub_add_cancel (Nat.lt_of_le_of_lt (Nat.zero_le _) hlen)).symm⟩
    have hspliced : k.spliced i = o'.pre ++ [⟨i⟩] ++ o'.post := by rw [spliced, ho']
    constructor
    · rw [hfuel, hspliced]
      refine flatten_of_leaves ho' hleaves fun p hp => ?_
      obtain ⟨hle, q, hq, -⟩ := hleaves p hp
      have := (List.getElem?_eq_some_iff.mp hq).1
      omega
    · rw [loweredAt, hc, ho, hspliced, nodesAt_append, nodesAt_append]
      dsimp only
      rw [← hblock, blockOf]
      have hself : k.nodesAt [⟨i⟩] = [k.nodeOf o'] := by
        rw [nodesAt, List.filterMap_cons_some (show k.opAt? ⟨i⟩ = some o' from ho')]
        rfl
      rw [hself]
  have horder : k.order = (List.range g.ops.length).map OpId.mk := h.order.trans hg.order
  constructor
  · have hmap : k.order.mapM (flatten k.ops k.ops.length) =
        .ok ((List.range g.ops.length).map k.spliced) := by
      rw [horder]
      have := mapM_ok_of_forall (F := fun i => flatten k.ops k.ops.length ⟨i⟩) (f := k.spliced)
        fun i hi => (hblock i hi).1
      rw [← this, List.mapM_map]
      rfl
    rw [emissionOrder, hmap]
    exact congrArg Except.ok (List.flatMap_def ..).symm
  · rw [nodesAt_flatMap, lowered]
    exact List.flatMap_congr fun i hi => (hblock i hi).2

end Graph

end Relayout
