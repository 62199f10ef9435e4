/-
# Nodes are found by their names

The node of a source operator is named after what the operator writes in the source, even
where a transpose writes it by now, and a transpose after the tensor that it turns, with
one prefix for the transposes in front of a reader and another for those behind a writer.
`Station` is what such a name says.

Two things make names identify nodes.  A station is read back from its name, since the
tensors of a source keep away from the prefixes (`Station.eq_of_nodeName_eq`).  And no
station is taken twice (`Call.nodup_stationsUpTo`): the transposes in front of readers are
shared, and the check of the graph admits one writer of a tensor.
-/
import Relayout.Proofs.Graph.Transposes
import Relayout.Proofs.Graph.Written

namespace Relayout

/-! ## Stations -/

/-- Where a node stands: in front of the readers of a tensor, at the operator that writes
a tensor in the source, or behind it. -/
inductive Station where
  | before (x : String)
  | own (y : String)
  | behind (y : String)
deriving DecidableEq

namespace Station

def nodeName : Station → String
  | before x => synthesizedName "Transposed" x
  | own y => y
  | behind y => synthesizedName "Transpose" y

/-- The tensor of the operator that a station is at. -/
def written? : Station → Option String
  | before _ => none
  | own y | behind y => some y

/-- A station is read back from the name of its node. -/
theorem eq_of_nodeName_eq {a b : Station} (ha : ∀ y ∈ a.written?, ¬Reserved y)
    (hb : ∀ y ∈ b.written?, ¬Reserved y) (h : a.nodeName = b.nodeName) : a = b := by
  have hroles : ∀ x y, synthesizedName "Transposed" x ≠ synthesizedName "Transpose" y :=
    fun x y heq => absurd (role_eq_of_synthesizedName_eq (by decide) (by decide) heq) (by decide)
  cases a with
  | before x =>
      cases b with
      | before x' => rw [synthesizedName_injective h]
      | own y => exact absurd h (synthesizedName_ne_of_not_reserved (hb _ rfl) _ _)
      | behind y => exact absurd h (hroles x y)
  | own y =>
      cases b with
      | before x => exact absurd h.symm (synthesizedName_ne_of_not_reserved (ha _ rfl) _ _)
      | own y' => exact congrArg own h
      | behind y' => exact absurd h.symm (synthesizedName_ne_of_not_reserved (ha _ rfl) _ _)
  | behind y =>
      cases b with
      | before x => exact absurd h.symm (hroles x y)
      | own y' => exact absurd h (synthesizedName_ne_of_not_reserved (hb _ rfl) _ _)
      | behind y' => rw [synthesizedName_injective h]

end Station

namespace Call

variable {c c' : Call} {calls : List Call} {tag : String → Option Layout} {seen : List String}
  {station : Station} {i n : Nat}

/-- The stations of the nodes of a call. -/
def stations (tag : String → Option Layout) (seen : List String) : Call → List Station
  | .conv _ _ _ y => [.own y]
  | .reshape x _ y =>
      (if (tag x).isSome ∧ x ∉ seen then [.before x] else []) ++ [.own y] ++
        (if (tag y).isSome then [.behind y] else [])

/-- The stations of the nodes of call number `i`. -/
def stationsAt (calls : List Call) (tag : String → Option Layout) (i : Nat) : List Station :=
  match calls[i]? with
  | some c => c.stations tag (turnedBefore calls i)
  | none => []

/-- A call stands in front of an operand that no call before it may have turned, or at
what it writes. -/
theorem mem_stations (h : station ∈ c.stations tag seen) :
    (∃ x ∈ c.turned, x ∉ seen ∧ station = .before x) ∨ station.written? = some c.output := by
  cases c with
  | conv a w b y =>
      rw [List.mem_singleton.mp h]
      exact Or.inr rfl
  | reshape x shape y =>
      simp only [stations, List.mem_append, List.mem_ite_nil_right, List.mem_singleton] at h
      obtain (⟨⟨-, hx⟩, rfl⟩ | rfl) | ⟨-, rfl⟩ := h
      · exact Or.inl ⟨x, List.mem_singleton_self x, hx, rfl⟩
      · exact Or.inr rfl
      · exact Or.inr rfl

theorem nodup_stations (c : Call) (tag : String → Option Layout) (seen : List String) :
    (c.stations tag seen).Nodup := by
  cases c with
  | conv a w b y => exact List.nodup_singleton _
  | reshape x shape y =>
      rw [stations]
      split <;> split <;> simp

theorem mem_stationsAt (h : station ∈ stationsAt calls tag i) :
    ∃ c, calls[i]? = some c ∧ station ∈ c.stations tag (turnedBefore calls i) := by
  unfold stationsAt at h
  split at h
  · exact ⟨_, ‹_›, h⟩
  · cases h

/-- If no tensor is written by two calls, no station is taken twice. -/
theorem nodup_stationsUpTo (honce : ∀ {i j : Nat} {c c' : Call}, calls[i]? = some c →
      calls[j]? = some c' → c.output = c'.output → i = j) (n : Nat) :
    ((List.range n).flatMap (stationsAt calls tag)).Nodup := by
  refine List.nodup_flatMap.mpr ⟨?_, List.pairwise_lt_range.imp fun {i j} hij => ?_⟩
  · intro i _
    unfold stationsAt
    split
    · exact nodup_stations _ tag _
    · exact List.nodup_nil
  intro station hi hj
  obtain ⟨c, hc, hi⟩ := mem_stationsAt hi
  obtain ⟨c', hc', hj⟩ := mem_stationsAt hj
  rcases mem_stations hi with ⟨x, hx, -, rfl⟩ | hwritten
  · rcases mem_stations hj with ⟨x', -, hseen, heq⟩ | hwritten'
    · -- the operand was turned for the call before
      cases heq
      have hmem : c ∈ calls.take j := List.mem_of_getElem? (i := i) (by
        rw [List.getElem?_take, if_pos hij, hc])
      exact hseen (List.mem_flatMap.mpr ⟨c, hmem, hx⟩)
    · cases hwritten'
  · rcases mem_stations hj with ⟨x', -, -, rfl⟩ | hwritten'
    · cases hwritten
    · have hout : c.output = c'.output := Option.some.inj (hwritten.symm.trans hwritten')
      exact Nat.ne_of_lt hij (honce hc hc' hout)

end Call

namespace Graph

variable {s : Scope} {layouts : SortedMap ExplicitLayout} {g k : Graph} {title : String}
  {i : Nat} {c : Call} {o : Operator} {tag : String → Option Layout} {seen : List String}

/-- The nodes of a call are named after their stations. -/
theorem Stands.map_name_block (h : g.Stands i c o) :
    (c.block tag seen (g.nodeOf o)).map Target.Node.name =
      (c.stations tag seen).map Station.nodeName := by
  have hname : (g.nodeOf o).name = c.output := h.name
  cases c with
  | conv a w b y => exact congrArg (fun name => [name]) hname
  | reshape x shape y =>
      have hbefore : (turnBefore tag seen x).map Target.Node.name =
          (if (tag x).isSome ∧ x ∉ seen then [Station.before x] else []).map Station.nodeName := by
        unfold turnBefore
        cases tag x with
        | none => rfl
        | some l => by_cases hx : x ∈ seen <;> simp [hx, turnNode, Station.nodeName]
      have hbehind : (turnAfter tag y).map Target.Node.name =
          (if (tag y).isSome then [Station.behind y] else []).map Station.nodeName := by
        unfold turnAfter
        cases tag y <;> rfl
      rw [Call.block, Call.stations, List.map_append, List.map_append, List.map_append,
        List.map_append, hbefore, hbehind, List.map_singleton, List.map_singleton]
      exact congrArg (fun name => _ ++ [name] ++ _) hname

theorem Readable.map_name_lowered (h : g.Readable s.calls tag) :
    (g.lowered s.calls tag).map Target.Node.name =
      ((List.range g.ops.length).flatMap (Call.stationsAt s.calls tag)).map Station.nodeName := by
  rw [lowered, List.map_flatMap, List.map_flatMap]
  refine List.flatMap_congr fun i hi => ?_
  obtain ⟨c, hc, -⟩ := h.call_of_op (List.getElem?_eq_getElem (List.mem_range.mp hi))
  obtain ⟨o, hstands, hblock⟩ := h.loweredAt_eq hc
  rw [hblock, hstands.map_name_block, Call.stationsAt, hc]

/-- No station is at a tensor with a reserved name. -/
theorem Intake.not_reserved_written (h : Intake s layouts g) (hnames : s.Unreserved)
    {station : Station} (hstation : station ∈ Call.stationsAt s.calls tag i) :
    ∀ y ∈ station.written?, ¬Reserved y := by
  intro y hy
  obtain ⟨c, hc, hmem⟩ := Call.mem_stationsAt hstation
  obtain ⟨decl, -, hcall⟩ := h.decl_at hc
  obtain ⟨index, d, -, hd, hname⟩ := Scope.outputs_of_call? hcall
  rcases Call.mem_stations hmem with ⟨x, -, -, rfl⟩ | hwritten
  · cases hy
  · obtain rfl := Option.some.inj (hwritten.symm.trans hy)
    exact hname ▸ hnames d (List.mem_of_getElem? (Source.Subgraph.tensor_eq_ok.mp hd).2)

/-- Nodes have different names. -/
theorem Passes.nodup_names (h : Passes s layouts g title) :
    ((g.loweredGraph title).nodes.map Target.Node.name).Nodup := by
  rw [h.nodes_eq, h.intake.readable.map_name_lowered]
  refine List.Nodup.map_on ?_ (Call.nodup_stationsUpTo h.calls_once _)
  intro a ha b hb heq
  obtain ⟨i, -, ha⟩ := List.mem_flatMap.mp ha
  obtain ⟨j, -, hb⟩ := List.mem_flatMap.mp hb
  exact Station.eq_of_nodeName_eq (h.intake.not_reserved_written h.unreserved ha)
    (h.intake.not_reserved_written h.unreserved hb) heq

/-- Operators write different tensors. -/
theorem Passes.nodup_outputs (h : Passes s layouts g title) :
    (s.subgraph.operators.flatMap Source.OperatorDecl.outputs).Nodup := by
  have hcall : ∀ {i : Nat} {decl : Source.OperatorDecl}, s.subgraph.operators[i]? = some decl →
      ∃ c index, s.calls[i]? = some c ∧ decl.outputs = [index] ∧
        s.nameAt? index = some c.output := by
    intro i decl hdecl
    obtain ⟨c, -, hcall, hc, -⟩ := h.intake.call_at hdecl
    obtain ⟨index, d, hindex, hd, hname⟩ := Scope.outputs_of_call? hcall
    exact ⟨c, index, hc, hindex, hname ▸ Scope.nameAt?_of_tensor hd⟩
  refine List.nodup_flatMap.mpr ⟨?_, List.pairwise_iff_getElem.mpr ?_⟩
  · intro decl hdecl
    obtain ⟨i, hi⟩ := List.getElem?_of_mem hdecl
    obtain ⟨c, index, -, hindex, -⟩ := hcall hi
    rw [hindex]
    exact List.nodup_singleton _
  · intro i j hi hj hij index hmem hmem'
    obtain ⟨c, index', hc, hindex, hname⟩ := hcall (List.getElem?_eq_getElem hi)
    obtain ⟨c', index'', hc', hindex', hname'⟩ := hcall (List.getElem?_eq_getElem hj)
    rw [hindex, List.mem_singleton] at hmem
    rw [hindex', List.mem_singleton] at hmem'
    subst hmem hmem'
    exact Nat.ne_of_lt hij (h.calls_once hc hc' (Option.some.inj (hname.symm.trans hname')))

/-! ## Which node is whose -/

/-- Among nodes of different names a node is found by its own. -/
theorem find?_eq_some_of_nodup {nodes : List Target.Node}
    (h : (nodes.map Target.Node.name).Nodup) {node : Target.Node} (hnode : node ∈ nodes) :
    nodes.find? (fun n => n.name == node.name) = some node := by
  obtain ⟨found, hfound⟩ : ∃ found, nodes.find? (fun n => n.name == node.name) = some found :=
    Option.isSome_iff_exists.mp (List.find?_isSome.mpr ⟨node, hnode, beq_self_eq_true _⟩)
  have hname : found.name = node.name := eq_of_beq (List.find?_some hfound :)
  rw [hfound, List.inj_on_of_nodup_map h (List.mem_of_find?_eq_some hfound) hnode hname]

/-- In an order of emission, the nodes that stand where operator `i` of the source
does. -/
def EmittedFor (k : Graph) (order : List OpId) (nodes : List Target.Node) (i : Nat)
    (node : Target.Node) : Prop :=
  ∃ (j : Nat) (p : OpId) (o : Operator), order[j]? = some p ∧ k.ops[p.index]? = some o ∧
    o.index = some i ∧ nodes[j]? = some node

/-- The nodes of a graph are those of its operators, in order of emission. -/
theorem exists_mapM_of_convert {graph : Target.Graph} {k' : Graph}
    (h : convert title k = .ok graph k') :
    ∃ order k₁, emissionOrder k = .ok order ∧ order.mapM convertOp k = .ok graph.nodes k₁ := by
  unfold convert at h
  obtain ⟨_, _, hget, h⟩ := Step.bind_eq_ok.mp h
  cases hget
  obtain ⟨order, _, hlift, h⟩ := Step.bind_eq_ok.mp h
  obtain ⟨horder, rfl⟩ := Step.liftViolation_eq_ok.mp hlift
  obtain ⟨nodes, k₁, hnodes, h⟩ := Step.bind_eq_ok.mp h
  refine ⟨order, k₁, horder, ?_⟩
  obtain ⟨_, _, -, h⟩ := Step.bind_eq_ok.mp h
  obtain ⟨_, _, -, h⟩ := Step.bind_eq_ok.mp h
  obtain ⟨_, _, -, h⟩ := Step.bind_eq_ok.mp h
  obtain ⟨_, _, -, h⟩ := Step.bind_eq_ok.mp h
  obtain ⟨_, _, -, h⟩ := Step.bind_eq_ok.mp h
  obtain ⟨_, _, -, h⟩ := Step.bind_eq_ok.mp h
  cases h
  exact hnodes

theorem getElem?_nodesAt {ps : List OpId} (hps : ∀ p ∈ ps, p.index < k.ops.length) (j : Nat) :
    (k.nodesAt ps)[j]? = ps[j]?.bind fun p => k.ops[p.index]?.map k.nodeOf := by
  have hsome : ∀ p ∈ ps, (k.opAt? p).isSome = true := fun p hp => by
    rw [opAt?, List.getElem?_eq_getElem (hps p hp)]
    rfl
  rw [nodesAt, List.getElem?_map, getElem?_filterMap_of_isSome hsome]
  cases ps[j]? <;> rfl

/-- A transpose in front of an operator is none of the source. -/
theorem InputSide.index_eq_none {o' turn : Operator} {q : OpId} (h : InputSide g k i o o')
    (hq : q ∈ o'.pre) (hturn : k.ops[q.index]? = some turn) : turn.index = none := by
  cases h with
  | kept _ _ hpre =>
      rw [hpre] at hq
      cases hq
  | shared _ _ _ _ hpre =>
      rw [hpre] at hq
      cases hq
  | turned _ _ _ _ hpre _ hturn' =>
      rw [hpre] at hq
      obtain rfl := List.mem_singleton.mp hq
      obtain rfl := Option.some.inj (hturn.symm.trans hturn')
      rfl

theorem OutputSide.index_eq_none {o' turn : Operator} {q : OpId} (h : OutputSide g k i o o')
    (hq : q ∈ o'.post) (hturn : k.ops[q.index]? = some turn) : turn.index = none := by
  cases h with
  | kept _ _ hpost =>
      rw [hpost] at hq
      cases hq
  | turned _ _ _ hpost _ hturn' =>
      rw [hpost] at hq
      obtain rfl := List.mem_singleton.mp hq
      obtain rfl := Option.some.inj (hturn.symm.trans hturn')
      rfl

namespace Passes

variable (h : Passes s layouts g title)

include h

/-- An operator of the source keeps its place and its name. -/
theorem adapted_op (hc : s.calls[i]? = some c) : (⟨i⟩ : OpId) ∈ g.loweredOrder ∧
    ∃ o, g.adapted.ops[i]? = some o ∧ o.index = some i ∧ o.name = c.output := by
  obtain ⟨o, ho, hstands⟩ := h.intake.readable.stands hc
  obtain ⟨o', ho', hr⟩ := (h.intake.inserting_adapted h.vacant h.clash).ops ho
  refine ⟨?_, o', ho', hr.index.trans hstands.index, hr.name.trans hstands.name⟩
  refine List.mem_flatMap.mpr ⟨i, List.mem_range.mpr (List.getElem?_eq_some_iff.mp ho).1, ?_⟩
  rw [spliced, ho']
  exact List.mem_append_left _ (List.mem_append_right _ (List.mem_singleton_self _))

/-- What is emitted for an operator of the source is that operator. -/
theorem eq_of_index {p : OpId} (hp : p ∈ g.loweredOrder)
    (ho : g.adapted.ops[p.index]? = some o) (hindex : o.index = some i) : p = ⟨i⟩ := by
  obtain ⟨n, hn, hp⟩ := List.mem_flatMap.mp hp
  have hn := List.mem_range.mp hn
  obtain ⟨c, -, hstands⟩ :=
    h.intake.readable.call_of_op (List.getElem?_eq_getElem hn)
  obtain ⟨o', ho', hr⟩ :=
    (h.intake.inserting_adapted h.vacant h.clash).ops (List.getElem?_eq_getElem hn)
  rw [spliced, ho', List.mem_append, List.mem_append, List.mem_singleton] at hp
  obtain (hpre | rfl) | hpost := hp
  · rw [(hr.read hn).index_eq_none hpre ho] at hindex
    cases hindex
  · obtain rfl := Option.some.inj (ho'.symm.trans ho)
    rw [hr.index, hstands.index] at hindex
    rw [Option.some.inj hindex]
  · rw [(hr.written hn).index_eq_none hpost ho] at hindex
    cases hindex

/-- The name of what a call writes finds the node that is emitted for it. -/
theorem node?_output (hc : s.calls[i]? = some c) :
    ∃ node, (g.loweredGraph title).node? c.output = some node ∧
      ∀ node', EmittedFor g.adapted g.loweredOrder (g.loweredGraph title).nodes i node' ↔
        node' = node := by
  obtain ⟨horder, -⟩ := (h.intake.arranged h.vacant h.clash).emitted h.intake.readable
  obtain ⟨order, horder', hlt⟩ := (h.intake.adapted_sound h.clash).emissionOrder
  obtain rfl : g.loweredOrder = order := Except.ok.inj (horder.symm.trans horder')
  obtain ⟨hmem, o, ho, hindex, hname⟩ := h.adapted_op hc
  have hnodes : ∀ j : Nat, (g.loweredGraph title).nodes[j]? =
      g.loweredOrder[j]?.bind fun p : OpId => g.adapted.ops[p.index]?.map g.adapted.nodeOf :=
    getElem?_nodesAt hlt
  have hemitted : ∀ node', EmittedFor g.adapted g.loweredOrder (g.loweredGraph title).nodes i
      node' ↔ node' = g.adapted.nodeOf o := by
    intro node'
    constructor
    · rintro ⟨j, p, o', hj, ho', hindex', hnode⟩
      obtain rfl := h.eq_of_index (List.mem_of_getElem? hj) ho' hindex'
      rw [hnodes, hj, Option.bind_some, ho, Option.map_some] at hnode
      exact (Option.some.inj hnode).symm
    · rintro rfl
      obtain ⟨j, hj⟩ := List.getElem?_of_mem hmem
      exact ⟨j, ⟨i⟩, o, hj, ho, hindex, by rw [hnodes, hj, Option.bind_some, ho, Option.map_some]⟩
  refine ⟨g.adapted.nodeOf o, ?_, hemitted⟩
  obtain ⟨j, -, -, -, -, -, hnode⟩ := (hemitted _).mpr rfl
  rw [← hname]
  exact find?_eq_some_of_nodup h.nodup_names (List.mem_of_getElem? hnode)

end Passes

end Graph

namespace Conversion

open Relayout.Graph

/-- Nodes have different names, operators write different tensors, and the name of the
tensor that an operator writes finds the one node that is emitted for it, whatever node
writes the tensor by now. -/
theorem convertModel_nodeNames {m : Source.Model} {o : Options} {model : Target.Model}
    {sub : Source.Subgraph} (h : (convertModel m o).outcome = .ok model)
    (hsub : m.subgraphs = [sub]) (hnames : (scopeOf m sub o).Unreserved) :
    (model.graph.nodes.map Target.Node.name).Nodup ∧
      (sub.operators.flatMap Source.OperatorDecl.outputs).Nodup ∧
      ∃ g k k' order, IsIntake (scopeOf m sub o) o.explicitLayouts g ∧ transform g = .ok () k ∧
        emissionOrder k = .ok order ∧ order.mapM convertOp k = .ok model.graph.nodes k' ∧
        ∀ (i : Nat) (decl : Source.OperatorDecl), sub.operators[i]? = some decl →
          ∃ index d node, decl.outputs = [index] ∧ sub.tensor index = .ok d ∧
            model.graph.node? d.name = some node ∧
            ∀ node', EmittedFor k order model.graph.nodes i node' ↔ node' = node := by
  obtain ⟨sub', g, g', hsub', hg, hclash, hrun⟩ := convertModel_eq_ok h
  obtain rfl : sub = sub' := List.singleton_inj.mp (hsub.symm.trans hsub')
  have hvacant := hg.intake.vacant hnames
  obtain ⟨-, -, -, hcheck, hgraph⟩ :=
    (hg.intake.convert_eq_ok_iff hvacant hclash _).mp ⟨g', hrun⟩
  have hpasses : Passes (scopeOf m sub o) o.explicitLayouts g _ :=
    ⟨hg.intake, hnames, hclash, hcheck⟩
  obtain ⟨order, k', horder, hnodes⟩ := exists_mapM_of_convert hrun
  obtain ⟨hlowered, -⟩ := (hg.intake.arranged hvacant hclash).emitted hg.intake.readable
  obtain rfl : g.loweredOrder = order := Except.ok.inj (hlowered.symm.trans horder)
  refine ⟨hgraph ▸ hpasses.nodup_names, hpasses.nodup_outputs, g, g.adapted, k',
    g.loweredOrder, hg, hg.intake.run_transform hclash, horder, hnodes, ?_⟩
  intro i decl hdecl
  obtain ⟨c, -, hcall, hc, -⟩ := hg.intake.call_at hdecl
  obtain ⟨index, d, hindex, hd, hname⟩ := Scope.outputs_of_call? hcall
  obtain ⟨node, hfound, hemitted⟩ := hpasses.node?_output hc
  rw [hgraph]
  exact ⟨index, d, node, hindex, hd, hname ▸ hfound, hemitted⟩

/-- A transpose writes `u`, and the name still finds the reshape in front of it. -/
theorem convertModel_nodeNames_shared :
    ∃ model node g k order, (convertModel sharedModel sharedOptions).outcome = .ok model ∧
      (model.graph.nodes.map Target.Node.name).Nodup ∧
      IsIntake (scopeOf sharedModel sharedSubgraph sharedOptions) sharedOptions.explicitLayouts g ∧
      transform g = .ok () k ∧ emissionOrder k = .ok order ∧
      model.graph.node? "u" = some node ∧ node.opType = "Reshape" ∧ "u" ∉ node.outputs ∧
      ∀ node', EmittedFor k order model.graph.nodes 3 node' ↔ node' = node := by
  obtain ⟨model, hmodel, hseen⟩ := exists_of_outcome sharedModel sharedOptions
    (fun model => (model.graph.node? "u").any fun node : Target.Node =>
      node.opType == "Reshape" && decide ("u" ∉ node.outputs)) (by decide +kernel)
  obtain ⟨hnodup, -, g, k, _, order, hg, hk, horder, -, hfinds⟩ :=
    convertModel_nodeNames hmodel rfl sharedModel_unreserved
  obtain ⟨index, d, node, hindex, hd, hnode, hemitted⟩ := hfinds 3 _ rfl
  cases hindex
  cases hd
  rw [hnode, Option.any_some, Bool.and_eq_true, beq_iff_eq, decide_eq_true_iff] at hseen
  exact ⟨model, node, g, k, order, hmodel, hnodup, hg, hk, horder, hnode, hseen.1, hseen.2,
    hemitted⟩

end Conversion

end Relayout
