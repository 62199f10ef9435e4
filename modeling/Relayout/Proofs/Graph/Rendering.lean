/-
# What emission writes

A sound graph is emitted without breaking an invariant, and what comes out is a
function of the graph alone: `Graph.rendering` says which, node by node and
tensor by tensor.  Emission itself only moves the stages of tensors and
operators, so the invariant is that the graph stays what it was apart from
these.
-/
import Relayout.Graph.Emission
import Relayout.Proofs.Graph.Sound

namespace Relayout

/-- A tensor whatever its stage. -/
def Tensor.settled (t : Tensor) : Tensor := { t with status := .converted }

/-- An operator whatever its stage. -/
def Operator.settled (o : Operator) : Operator := { o with status := .converted }

/-- The tensor of the converted graph, checked; every tensor has a type by
now. -/
def Tensor.rendered (t : Tensor) : Except ConversionError Target.TensorNode := do
  let data ← t.emittedData
  let node : Target.TensorNode :=
    ⟨t.name, t.elementType.getD .float32, t.shape.map Int64.ofNat, data⟩
  Target.checkTensor node
  return node

theorem Tensor.rendered_settled (t : Tensor) : t.settled.rendered = t.rendered := rfl

/-- The converted form of a typed tensor with given data. -/
def Tensor.nodeWith (t : Tensor) (data : Option Buffer) : Target.TensorNode :=
  ⟨t.name, t.elementType.getD .float32, t.shape.map Int64.ofNat, data⟩

theorem Tensor.rendered_eq (t : Tensor) : t.rendered =
    match t.emittedData with
    | .error e => .error e
    | .ok data =>
        match Target.checkTensor (t.nodeWith data) with
        | .error e => .error e
        | .ok _ => .ok (t.nodeWith data) := by
  unfold Tensor.rendered
  cases t.emittedData with
  | error e => rfl
  | ok data =>
      change (do Target.checkTensor (t.nodeWith data); return t.nodeWith data) = _
      dsimp only
      cases Target.checkTensor (t.nodeWith data) <;> rfl

/-- Converting a parsed tensor answers what `rendered` says, and moves its
stage. -/
theorem Tensor.convert_run {t : Tensor} (hparsed : t.status.isParsed = true)
    (htyped : t.elementType.isSome = true) :
    Tensor.convert t = match t.rendered with
      | .ok node => .ok node t.settled
      | .error e => .error (.input e) t := by
  obtain ⟨type, htype⟩ := Option.isSome_iff_exists.mp htyped
  have hadvance : t.advance .converted = .ok t.settled := by
    rw [Tensor.advance, Status.advance_of_le t.status.stage_le_converted]
    rfl
  have htyped : t.typed = .ok type := by rw [Tensor.typed, htype]
  have hnode : ∀ data, (⟨t.name, type, t.shape.map Int64.ofNat, data⟩ : Target.TensorNode) =
      t.nodeWith data := fun data => by rw [Tensor.nodeWith, htype, Option.getD_some]
  unfold Tensor.convert
  rw [Step.run_bind_of_ok (Step.run_get t), Step.run_bind_of_ok (Step.run_require hparsed _ t),
    htyped, t.rendered_eq]
  cases t.emittedData with
  | error e => rfl
  | ok data =>
      refine Step.run_seq (Step.run_lift_ok data t) ?_
      refine Step.run_seq (Step.run_liftViolation_ok type t) ?_
      dsimp only
      rw [hnode]
      cases Target.checkTensor (t.nodeWith data) with
      | error e => rfl
      | ok _ =>
          refine Step.run_seq (Step.run_lift_ok _ t) ?_
          exact Step.run_seq (Step.run_update hadvance) rfl

namespace Graph

variable {g k : Graph} {id : OpId} {o : Operator} {t : Tensor}

/-- The node of an operator. -/
def nodeOf (g : Graph) (o : Operator) : Target.Node where
  name := o.name
  opType := o.kind.name
  inputs := o.inputs.filterMap g.nameOf?
  outputs := o.outputs.filterMap g.nameOf?
  attributes := .ofEntries o.kind.attributes

/-- The tensor of an identifier, with the identifier. -/
def located? (g : Graph) (id : TensorId) : Option (TensorId × Tensor) :=
  g.tensors[id.index]?.map (id, ·)

/-- The operator of an identifier. -/
def opAt? (g : Graph) (id : OpId) : Option Operator := g.ops[id.index]?

/-- The converted graph, if the operators are emitted in a given order. -/
def rendering (g : Graph) (name : String) (order : List OpId) :
    Except ConversionError Target.Graph := do
  let operators := order.filterMap g.opAt?
  let nodes ← operators.mapM fun o => do
    Target.checkNode (g.nodeOf o)
    return g.nodeOf o
  let tensors ← ((referenced g.inputs operators).filterMap g.located?).mapM fun (id, t) => do
    let node ← t.rendered
    return (g.role id node, node)
  let outputs ← (g.outputs.filterMap g.located?).mapM fun (_, t) => t.rendered
  let graph : Target.Graph := {
    name := name
    nodes := nodes
    initializers := inRole .initializer tensors
    inputs := inRole .input tensors
    outputs := outputs
    valueInfos := inRole .value tensors }
  Target.checkGraph graph
  return graph

/-! ## Order -/

theorem exists_mapM {f : OpId → Except Violation (List OpId)} {ps : List OpId} {n : Nat}
    (h : ∀ p ∈ ps, ∃ ids, f p = .ok ids ∧ ∀ q ∈ ids, q.index < n) :
    ∃ idss, ps.mapM f = .ok idss ∧ ∀ q ∈ idss.flatten, q.index < n := by
  induction ps with
  | nil => exact ⟨[], rfl, by simp⟩
  | cons p ps ih =>
      obtain ⟨ids, hids, hlt⟩ := h p List.mem_cons_self
      obtain ⟨idss, hidss, hlts⟩ := ih fun q hq => h q (List.mem_cons_of_mem _ hq)
      refine ⟨ids :: idss, by rw [List.mapM_cons, hids, hidss]; rfl, fun q hq => ?_⟩
      rw [List.flatten_cons] at hq
      exact (List.mem_append.mp hq).elim (hlt q) (hlts q)

/-- No chain of splices is longer than the arena. -/
theorem Sound.flatten (h : g.Sound) {fuel : Nat} (hid : id.index < g.ops.length)
    (hfuel : g.ops.length ≤ id.index + fuel) :
    ∃ ids, flatten g.ops fuel id = .ok ids ∧ ∀ p ∈ ids, p.index < g.ops.length := by
  induction fuel generalizing id with
  | zero => omega
  | succ fuel ih =>
      have ho := List.getElem?_eq_getElem hid
      have hs := h.ops ho
      obtain ⟨before, hbefore, hb⟩ := exists_mapM fun p hp =>
        ih (hs.pre p hp).2 (by have := hs.pre p hp; omega)
      obtain ⟨behind, hbehind, ha⟩ := exists_mapM fun p hp =>
        ih (hs.post p hp).2 (by have := hs.post p hp; omega)
      refine ⟨before.flatten ++ [id] ++ behind.flatten, ?_, ?_⟩
      · rw [Graph.flatten, entryAt_of_getElem? ho]
        simp only [bind, Except.bind, hbefore, hbehind, pure, Except.pure]
      · intro p hp
        rw [List.mem_append, List.mem_append, List.mem_singleton] at hp
        rcases hp with (hp | rfl) | hp
        · exact hb p hp
        · exact hid
        · exact ha p hp

/-- A sound graph has an order of emission. -/
theorem Sound.emissionOrder (h : g.Sound) :
    ∃ order, emissionOrder g = .ok order ∧ ∀ p ∈ order, p.index < g.ops.length := by
  obtain ⟨idss, hidss, hlt⟩ := exists_mapM fun p hp =>
    h.flatten (h.order p hp) (Nat.le_add_left g.ops.length p.index)
  exact ⟨idss.flatten, by rw [Graph.emissionOrder, hidss]; rfl, hlt⟩

/-! ## Stages -/

/-- A graph that is being emitted: `g`, apart from stages. -/
structure Emitting (g k : Graph) : Prop where
  tensors : k.tensors.map Tensor.settled = g.tensors.map Tensor.settled
  ops : k.ops.map Operator.settled = g.ops.map Operator.settled
  tensors_parsed : ∀ t ∈ k.tensors, t.status.isParsed = true
  ops_parsed : ∀ o ∈ k.ops, o.status.isParsed = true
  inputs : k.inputs = g.inputs
  outputs : k.outputs = g.outputs

theorem Sound.emitting (h : g.Sound) : Emitting g g :=
  ⟨rfl, rfl, h.parsed, fun o ho => by
    obtain ⟨i, hi⟩ := List.getElem?_of_mem ho
    exact (h.ops hi).parsed, rfl, rfl⟩

namespace Emitting

variable (h : Emitting g k)

include h

theorem tensorAt (id : TensorId) (ht : g.tensors[id.index]? = some t) :
    ∃ u, k.tensors[id.index]? = some u ∧ u.settled = t.settled ∧ u.status.isParsed = true := by
  have heq : k.tensors[id.index]?.map Tensor.settled = some t.settled := by
    rw [← List.getElem?_map, h.tensors, List.getElem?_map, ht, Option.map_some]
  obtain ⟨u, hu, hsettled⟩ := Option.map_eq_some_iff.mp heq
  exact ⟨u, hu, hsettled, h.tensors_parsed u (List.mem_of_getElem? hu)⟩

theorem opAt (ho : g.ops[id.index]? = some o) :
    ∃ o', k.ops[id.index]? = some o' ∧ o'.settled = o.settled ∧ o'.status.isParsed = true := by
  have heq : k.ops[id.index]?.map Operator.settled = some o.settled := by
    rw [← List.getElem?_map, h.ops, List.getElem?_map, ho, Option.map_some]
  obtain ⟨o', ho', hsettled⟩ := Option.map_eq_some_iff.mp heq
  exact ⟨o', ho', hsettled, h.ops_parsed o' (List.mem_of_getElem? ho')⟩

/-- The stage of a tensor moves. -/
theorem setTensor {i : Nat} {u u' : Tensor} (hu : k.tensors[i]? = some u)
    (hsettled : u'.settled = u.settled) (hparsed : u'.status.isParsed = true) :
    Emitting g { k with tensors := k.tensors.set i u' } where
  tensors := (map_set_of_eq hu hsettled).trans h.tensors
  ops := h.ops
  tensors_parsed := fun t ht => (List.mem_or_eq_of_mem_set ht).elim (h.tensors_parsed t)
    fun heq => heq ▸ hparsed
  ops_parsed := h.ops_parsed
  inputs := h.inputs
  outputs := h.outputs

/-- The stage of an operator moves. -/
theorem setOp {i : Nat} {u u' : Operator} (hu : k.ops[i]? = some u)
    (hsettled : u'.settled = u.settled) (hparsed : u'.status.isParsed = true) :
    Emitting g { k with ops := k.ops.set i u' } where
  tensors := h.tensors
  ops := (map_set_of_eq hu hsettled).trans h.ops
  tensors_parsed := h.tensors_parsed
  ops_parsed := fun t ht => (List.mem_or_eq_of_mem_set ht).elim (h.ops_parsed t)
    fun heq => heq ▸ hparsed
  inputs := h.inputs
  outputs := h.outputs

end Emitting

/-! ## Running emission -/

theorem convertTensor_denotes {id : TensorId} (ht : g.tensors[id.index]? = some t)
    (htyped : t.elementType.isSome = true) :
    Step.Denotes (Emitting g) (onTensor id Tensor.convert) t.rendered := by
  intro k hk
  obtain ⟨u, hu, hsettled, hparsed⟩ := hk.tensorAt id ht
  have hrendered : u.rendered = t.rendered := by
    rw [← Tensor.rendered_settled, hsettled, Tensor.rendered_settled]
  have htype : u.elementType = t.elementType := by
    simpa [Tensor.settled] using congrArg Tensor.elementType hsettled
  have hrun := Tensor.convert_run hparsed (htype ▸ htyped)
  rw [hrendered] at hrun
  cases h : t.rendered with
  | ok node =>
      rw [h] at hrun
      exact ⟨_, run_onTensor hu hrun, hk.setTensor hu rfl rfl⟩
  | error e =>
      rw [h] at hrun
      simp only [onTensor, Step.onEntry, hu, hrun]
      exact ⟨_, rfl⟩

theorem convertEntry_denotes {id : TensorId} (ht : g.tensors[id.index]? = some t)
    (htyped : t.elementType.isSome = true) :
    Step.Denotes (Emitting g) (convertTensor id)
      (do let node ← t.rendered; return (g.role id node, node)) := by
  refine (convertTensor_denotes ht htyped).bind fun node _ => Step.Denotes.of_ok fun k hk => ?_
  refine ⟨k, ?_, hk⟩
  have hrole : k.role id node = g.role id node := by rw [role, role, hk.inputs, hk.outputs]
  rw [Step.run_bind_of_ok (Step.run_get k), hrole]
  rfl

/-- Reading operands answers their names. -/
theorem Emitting.mapM_tensor (h : Emitting g k) {ids : List TensorId}
    (hids : ∀ id ∈ ids, id.index < g.tensors.length) :
    ∃ ts, ids.mapM tensor k = .ok ts k ∧ ts.map Tensor.name = ids.filterMap g.nameOf? := by
  induction ids with
  | nil => exact ⟨[], rfl, rfl⟩
  | cons id ids ih =>
      have ht := List.getElem?_eq_getElem (hids id List.mem_cons_self)
      obtain ⟨u, hu, hsettled, -⟩ := h.tensorAt id ht
      obtain ⟨ts, hts, hnames⟩ := ih fun id' hid' => hids id' (List.mem_cons_of_mem _ hid')
      have hname : g.nameOf? id = some u.name := by
        rw [nameOf?, ht, Option.map_some]
        exact congrArg some (congrArg Tensor.name hsettled).symm
      refine ⟨u :: ts, ?_, ?_⟩
      · rw [List.mapM_cons]
        exact Step.run_seq (run_tensor hu) (Step.run_seq hts rfl)
      · rw [List.map_cons, hnames, List.filterMap_cons_some hname]

theorem convertOp_denotes (ho : g.ops[id.index]? = some o) (hs : g.SoundOp id.index o) :
    Step.Denotes (Emitting g) (convertOp id) (do
      Target.checkNode (g.nodeOf o)
      return g.nodeOf o) := by
  intro k hk
  obtain ⟨o', ho', hsettled, hparsed⟩ := hk.opAt ho
  simp only [Operator.settled, Operator.mk.injEq] at hsettled
  obtain ⟨-, hname, hkind, hins, houts, -⟩ := hsettled
  obtain ⟨ins, hmapIns, hnamesIns⟩ := hk.mapM_tensor hs.inputs
  obtain ⟨outs, hmapOuts, hnamesOuts⟩ := hk.mapM_tensor hs.outputs
  have hnode : (⟨o'.name, o'.kind.name, ins.map Tensor.name, outs.map Tensor.name,
      .ofEntries o'.kind.attributes⟩ : Target.Node) = g.nodeOf o := by
    rw [nodeOf, hname, hkind, hnamesIns, hnamesOuts]
  have hadvance : o'.advance .converted = .ok o'.settled := by
    rw [Operator.advance, Status.advance_of_le o'.status.stage_le_converted]
    rfl
  unfold convertOp
  rw [Step.run_bind_of_ok (run_op ho'), Step.run_bind_of_ok (Step.run_require hparsed _ k), hins,
    Step.run_bind_of_ok hmapIns, houts, Step.run_bind_of_ok hmapOuts, hnode]
  cases Target.checkNode (g.nodeOf o) with
  | error e => exact ⟨k, rfl⟩
  | ok _ =>
      rw [Step.run_bind_of_ok (Step.run_lift_ok _ k),
        Step.run_bind_of_ok (run_updateOp (f := Operator.settled) ho' hadvance)]
      refine ⟨_, rfl, ?_⟩
      rw [modify_eq_set ho']
      exact hk.setOp ho' rfl rfl

/-- Looking up operators answers them, whatever their stages. -/
theorem Emitting.mapM_op (h : Emitting g k) {order : List OpId}
    (horder : ∀ p ∈ order, p.index < g.ops.length) :
    ∃ os, order.mapM op k = .ok os k ∧
      os.map Operator.settled = (order.filterMap g.opAt?).map Operator.settled := by
  induction order with
  | nil => exact ⟨[], rfl, rfl⟩
  | cons p order ih =>
      have ho := List.getElem?_eq_getElem (horder p List.mem_cons_self)
      obtain ⟨o', ho', hsettled, -⟩ := h.opAt ho
      obtain ⟨os, hos, hrest⟩ := ih fun q hq => horder q (List.mem_cons_of_mem _ hq)
      refine ⟨o' :: os, ?_, ?_⟩
      · rw [List.mapM_cons]
        exact Step.run_seq (run_op ho') (Step.run_seq hos rfl)
      · rw [List.filterMap_cons_some (show g.opAt? p = some _ from ho), List.map_cons, hrest,
          hsettled, List.map_cons]

/-- What is referred to does not depend on stages. -/
theorem referenced_settled (inputs : List TensorId) (os : List Operator) :
    referenced inputs (os.map Operator.settled) = referenced inputs os := by
  rw [referenced, referenced, List.flatMap_map]
  rfl

theorem mem_referenced {inputs : List TensorId} {os : List Operator} {id : TensorId} :
    id ∈ referenced inputs os ↔
      id ∈ inputs ∨ ∃ o ∈ os, id ∈ o.inputs ∨ id ∈ o.outputs := by
  have hfold : ∀ (ids seen : List TensorId),
      id ∈ ids.foldl (fun seen id => if id ∈ seen then seen else seen ++ [id]) seen ↔
        id ∈ seen ∨ id ∈ ids := by
    intro ids
    induction ids with
    | nil => simp
    | cons a ids ih =>
        intro seen
        rw [List.foldl_cons, ih]
        split
        · rename_i ha
          refine ⟨Or.imp_right (List.mem_cons_of_mem a), ?_⟩
          rintro (hid | hid)
          · exact Or.inl hid
          · rcases List.mem_cons.mp hid with rfl | hid
            · exact Or.inl ha
            · exact Or.inr hid
        · simp [or_assoc]
  rw [referenced, hfold]
  simp

theorem lt_of_mem_referenced (h : g.Sound) {os : List Operator}
    (hos : ∀ o ∈ os, ∃ i, g.SoundOp i o) {id : TensorId} (hid : id ∈ referenced g.inputs os) :
    id.index < g.tensors.length := by
  rcases mem_referenced.mp hid with hid | ⟨o, ho, hid⟩
  · exact h.inputs id hid
  · obtain ⟨i, hs⟩ := hos o ho
    exact hid.elim (hs.inputs id) (hs.outputs id)

/-- Emitting the operators in a given order. -/
def emission (name : String) (order : List OpId) : Step Graph Target.Graph := do
  let nodes ← order.mapM convertOp
  let operators ← order.mapM op
  let tensors ← (referenced (← get).inputs operators).mapM convertTensor
  let outputs ← (← get).outputs.mapM fun id => onTensor id Tensor.convert
  let graph : Target.Graph := {
    name := name
    nodes := nodes
    initializers := inRole .initializer tensors
    inputs := inRole .input tensors
    outputs := outputs
    valueInfos := inRole .value tensors }
  Target.checkGraph graph
  return graph

theorem convert_run {order : List OpId} (h : Graph.emissionOrder g = .ok order) (name : String) :
    convert name g = emission name order g := by
  unfold convert
  rw [Step.run_bind_of_ok (Step.run_get g), h,
    Step.run_bind_of_ok (Step.run_liftViolation_ok order g)]
  rfl

/-- Emitting a sound graph in an order answers what `rendering` says. -/
theorem Sound.emission_denotes (h : g.Sound) {order : List OpId}
    (hlt : ∀ p ∈ order, p.index < g.ops.length) (name : String) :
    Step.Denotes (Emitting g) (emission name order) (g.rendering name order) := by
  have hentry : ∀ id : TensorId, id.index < g.tensors.length → ∃ t,
      g.tensors[id.index]? = some t ∧ t.elementType.isSome = true := fun id hid =>
    ⟨_, List.getElem?_eq_getElem hid, h.typed _ (List.getElem_mem hid)⟩
  have hops : ∀ o ∈ order.filterMap g.opAt?, ∃ i, g.SoundOp i o := by
    intro o ho
    obtain ⟨p, -, hp⟩ := List.mem_filterMap.mp ho
    exact ⟨p.index, h.ops hp⟩
  refine Step.Denotes.bind (Step.Denotes.mapM fun p hp => ?_) fun nodes _ => ?_
  · have ho := List.getElem?_eq_getElem (hlt p hp)
    exact ⟨_, ho, convertOp_denotes ho (h.ops ho)⟩
  intro k hk
  obtain ⟨os, hos, hsettled⟩ := hk.mapM_op hlt
  have hreferenced : referenced g.inputs os =
      referenced g.inputs (order.filterMap g.opAt?) := by
    rw [← referenced_settled, hsettled, referenced_settled]
  rw [Step.run_bind_of_ok hos, Step.run_bind_of_ok (Step.run_get k), hk.inputs, hreferenced]
  refine Step.Denotes.bind (Step.Denotes.mapM fun id hid => ?_) (fun tensors _ => ?_) k hk
  · obtain ⟨t, ht, htyped⟩ := hentry id (lt_of_mem_referenced h hops hid)
    exact ⟨(id, t), by rw [located?, ht]; rfl, convertEntry_denotes ht htyped⟩
  intro k hk
  rw [Step.run_bind_of_ok (Step.run_get k), hk.outputs]
  refine Step.Denotes.bind (Step.Denotes.mapM fun id hid => ?_) (fun outputs _ => ?_) k hk
  · obtain ⟨t, ht, htyped⟩ := hentry id (h.outputs id hid)
    exact ⟨(id, t), by rw [located?, ht]; rfl, convertTensor_denotes ht htyped⟩
  exact (Step.Denotes.lift _).bind fun _ _ => .pure _

/-- Emitting a sound graph answers what `rendering` says. -/
theorem Sound.convert_denotes (h : g.Sound) (name : String) :
    ∃ order, Graph.emissionOrder g = .ok order ∧
      match g.rendering name order with
      | .ok graph => ∃ g', convert name g = .ok graph g'
      | .error e => ∃ g', convert name g = .error (.input e) g' := by
  obtain ⟨order, horder, hlt⟩ := h.emissionOrder
  refine ⟨order, horder, ?_⟩
  have hrun := h.emission_denotes hlt name g h.emitting
  rw [convert_run horder]
  cases hr : g.rendering name order with
  | ok graph =>
      rw [hr] at hrun
      obtain ⟨g', hg', -⟩ := hrun
      exact ⟨g', hg'⟩
  | error e =>
      rw [hr] at hrun
      exact hrun

end Graph

end Relayout
