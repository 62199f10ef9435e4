/-
# The tensors of a written graph

Which tensors a converted graph has, and in which role, by names: a tensor is
written if the boundary or a node mentions it, and it is there from the start if
it has data or is an input.
-/
import Relayout.Proofs.Graph.Flow

namespace Relayout.Graph

variable {g k : Graph} {order : List OpId} {id : TensorId} {u : Tensor} {name : String}
  {r : Role} {node : Target.TensorNode} {s : Scope} {layouts : SortedMap ExplicitLayout}

theorem mem_inRole {nodes : List (Role × Target.TensorNode)} :
    node ∈ inRole r nodes ↔ (r, node) ∈ nodes := by
  unfold inRole
  rw [List.mem_map]
  constructor
  · rintro ⟨⟨r', node'⟩, hmem, rfl⟩
    obtain ⟨hin, hr⟩ := List.mem_filter.mp hmem
    obtain rfl : r' = r := by simpa using hr
    exact hin
  · exact fun hmem => ⟨(r, node), List.mem_filter.mpr ⟨hmem, by simp⟩, rfl⟩

theorem role_eq_initializer : g.role id node = .initializer ↔ node.data.isSome = true := by
  unfold role
  repeat' split
  all_goals simp_all

theorem role_eq_input :
    g.role id node = .input ↔ node.data.isSome = false ∧ id ∈ g.inputs := by
  unfold role
  repeat' split
  all_goals simp_all

theorem Named.eq_of_nameOf? (hk : k.Named) {id' : TensorId} {name : String}
    (h : k.nameOf? id = some name) (h' : k.nameOf? id' = some name) : id = id' := by
  obtain ⟨t, ht, rfl⟩ := Option.map_eq_some_iff.mp h
  obtain ⟨t', ht', hname⟩ := Option.map_eq_some_iff.mp h'
  exact TensorId.index_inj.mp (hk.eq_of_name ht ht' hname.symm)

/-- Where names are distinct, a list of tensors mentions a tensor exactly if it
mentions its name. -/
theorem Named.mem_filterMap_nameOf? (hk : k.Named) (hu : k.tensors[id.index]? = some u)
    {ids : List TensorId} : u.name ∈ ids.filterMap k.nameOf? ↔ id ∈ ids := by
  rw [List.mem_filterMap]
  constructor
  · rintro ⟨id', hid', hname⟩
    obtain ⟨u', hu', heq⟩ := Option.map_eq_some_iff.mp hname
    obtain rfl := TensorId.index_inj.mp (hk.eq_of_name hu' hu heq)
    exact hid'
  · exact fun hid => ⟨id, hid, by rw [nameOf?, hu, Option.map_some]⟩

/-- The boundary or a node mentions a name. -/
def Mentions (inputs : List String) (nodes : List Target.Node) (name : String) : Prop :=
  name ∈ inputs ∨ ∃ node ∈ nodes, name ∈ node.inputs ∨ name ∈ node.outputs

theorem mem_mentioned (hk : k.Named) : (id, u) ∈ k.mentioned order ↔
    k.tensors[id.index]? = some u ∧
      Mentions (k.inputs.filterMap k.nameOf?) (k.nodesAt order) u.name := by
  have hentry : (id, u) ∈ k.mentioned order ↔ k.tensors[id.index]? = some u ∧
      id ∈ referenced k.inputs (order.filterMap k.opAt?) := by
    unfold mentioned
    rw [List.mem_filterMap]
    constructor
    · rintro ⟨id', hid', he⟩
      obtain ⟨rfl, hu⟩ := mem_of_located? he
      exact ⟨hu, hid'⟩
    · rintro ⟨hu, hid⟩
      exact ⟨id, hid, by rw [located?, hu, Option.map_some]⟩
  rw [hentry]
  refine and_congr_right fun hu => ?_
  rw [mem_referenced, Mentions, hk.mem_filterMap_nameOf? hu, nodesAt]
  refine or_congr_right ?_
  constructor
  · rintro ⟨o, ho, hid⟩
    exact ⟨k.nodeOf o, List.mem_map_of_mem ho, hid.imp (hk.mem_filterMap_nameOf? hu).mpr
      (hk.mem_filterMap_nameOf? hu).mpr⟩
  · rintro ⟨node, hnode, hmem⟩
    obtain ⟨o, ho, rfl⟩ := List.mem_map.mp hnode
    exact ⟨o, ho, hmem.imp (hk.mem_filterMap_nameOf? hu).mp (hk.mem_filterMap_nameOf? hu).mp⟩

/-- What a node reads is the name of a tensor. -/
theorem exists_of_mem_nodesAt {n : Target.Node} (hn : n ∈ k.nodesAt order)
    (hname : name ∈ n.inputs ∨ name ∈ n.outputs) :
    ∃ id u, k.tensors[TensorId.index id]? = some u ∧ u.name = name := by
  obtain ⟨o, -, rfl⟩ := List.mem_map.mp hn
  have hmem : ∃ ids : List TensorId, name ∈ ids.filterMap k.nameOf? :=
    hname.elim (fun h => ⟨_, h⟩) fun h => ⟨_, h⟩
  obtain ⟨ids, hmem⟩ := hmem
  obtain ⟨id, -, hid⟩ := List.mem_filterMap.mp hmem
  obtain ⟨u, hu, heq⟩ := Option.map_eq_some_iff.mp hid
  exact ⟨id, u, hu, heq⟩

/-- A name that is mentioned is that of a mentioned tensor. -/
theorem Named.exists_mentioned (hk : k.Named)
    (h : Mentions (k.inputs.filterMap k.nameOf?) (k.nodesAt order) name) :
    ∃ id u, (id, u) ∈ k.mentioned order ∧ u.name = name := by
  obtain ⟨id, u, hu, rfl⟩ : ∃ id u, k.tensors[TensorId.index id]? = some u ∧ u.name = name := by
    rcases h with hmem | ⟨n, hn, hmem⟩
    · obtain ⟨id, -, hid⟩ := List.mem_filterMap.mp hmem
      obtain ⟨u, hu, heq⟩ := Option.map_eq_some_iff.mp hid
      exact ⟨id, u, hu, heq⟩
    · exact exists_of_mem_nodesAt hn hmem
  exact ⟨id, u, (mem_mentioned hk).mpr ⟨hu, h⟩, rfl⟩

/-- The names that a written graph starts from. -/
def startNames (graph : Target.Graph) : List String :=
  (graph.initializers ++ graph.inputs).map Target.TensorNode.name

theorem mem_startNames (hk : k.Named) {title : String} :
    name ∈ startNames (k.targetOf title order) ↔
      ∃ id u, (id, u) ∈ k.mentioned order ∧ u.name = name ∧
        (u.data.isSome = true ∨ name ∈ k.inputs.filterMap k.nameOf?) := by
  have hrole : ∀ r (t : Target.TensorNode), t ∈ inRole r
      ((k.mentioned order).map fun e => (k.role e.1 e.2.node, e.2.node)) ↔
        ∃ id u, (id, u) ∈ k.mentioned order ∧ k.role id u.node = r ∧ u.node = t := by
    intro r t
    rw [mem_inRole, List.mem_map]
    constructor
    · rintro ⟨⟨id, u⟩, he, heq⟩
      cases heq
      exact ⟨id, u, he, rfl, rfl⟩
    · rintro ⟨id, u, he, rfl, rfl⟩
      exact ⟨(id, u), he, rfl⟩
  unfold startNames targetOf
  simp only [List.map_append, List.mem_append, List.mem_map, hrole]
  constructor
  · rintro (⟨t, ⟨id, u, he, hr, rfl⟩, rfl⟩ | ⟨t, ⟨id, u, he, hr, rfl⟩, rfl⟩)
    · exact ⟨id, u, he, rfl, Or.inl (role_eq_initializer.mp hr)⟩
    · refine ⟨id, u, he, rfl, Or.inr ?_⟩
      exact (hk.mem_filterMap_nameOf? ((mem_mentioned hk).mp he).1).mpr (role_eq_input.mp hr).2
  · rintro ⟨id, u, he, rfl, hsome⟩
    by_cases hdata : u.data.isSome = true
    · exact Or.inl ⟨u.node, ⟨id, u, he, role_eq_initializer.mpr hdata, rfl⟩, rfl⟩
    · refine Or.inr ⟨u.node, ⟨id, u, he, role_eq_input.mpr
        ⟨by simpa [Tensor.node, Tensor.nodeWith] using hdata, ?_⟩, rfl⟩, rfl⟩
      exact (hk.mem_filterMap_nameOf? ((mem_mentioned hk).mp he).1).mp (hsome.resolve_left hdata)

/-! ## Lowered graphs -/

theorem Intake.adapted_named (h : Intake s layouts g) (hclash : ¬g.Clash) : g.adapted.Named :=
  (h.adapting_adapted hclash).named

/-- The inputs are those of the source. -/
theorem Intake.adapted_inputs (h : Intake s layouts g) :
    g.adapted.inputs.filterMap g.adapted.nameOf? = s.boundary s.subgraph.inputs := by
  rw [h.framed.inputs]
  exact filterMap_nameOf?_of_map (h.framed.keeps.map_nameOf? h.inputs)

theorem Intake.adapted_outputs (h : Intake s layouts g) :
    g.adapted.outputs.filterMap g.adapted.nameOf? = s.boundary s.subgraph.outputs := by
  rw [h.framed.outputs]
  exact filterMap_nameOf?_of_map (h.framed.keeps.map_nameOf? h.outputs)

section Lowered

variable (h : Intake s layouts g) (hvacant : g.Vacant) (hclash : ¬g.Clash)

include h hvacant hclash

theorem Intake.nodesAt_loweredOrder :
    g.adapted.nodesAt g.loweredOrder = g.lowered s.calls (s.tag layouts) :=
  ((h.arranged hvacant hclash).emitted h.readable).2

/-- The names of inputs, and of tensors that have data. -/
def GivenIn (s : Scope) (g : Graph) (name : String) : Prop :=
  name ∈ s.boundary s.subgraph.inputs ∨ ∃ t ∈ g.tensors, t.name = name ∧ t.data.isSome = true

/-- Adapting makes no data. -/
theorem Intake.data_adapted : (∃ u ∈ g.adapted.tensors, u.name = name ∧ u.data.isSome = true) ↔
    ∃ t ∈ g.tensors, t.name = name ∧ t.data.isSome = true := by
  have hP := h.populated hvacant hclash
  constructor
  · rintro ⟨u, hu, rfl, hdata⟩
    obtain ⟨t, ht, hbare⟩ | ⟨role, x, l, -, hbare, -⟩ := hP.cases hu
    · rw [← u.bare_data, hbare, Tensor.isSome_data_moved] at hdata
      exact ⟨t, ht, by rw [← u.bare_name, hbare, Tensor.moved_name, Tensor.bare_name], hdata⟩
    · rw [← u.bare_data, hbare] at hdata
      cases hdata
  · rintro ⟨t, ht, rfl, hdata⟩
    obtain ⟨i, hi⟩ := List.getElem?_of_mem ht
    obtain ⟨u, hu, hbare⟩ := hP.base hi
    refine ⟨u, List.mem_of_getElem? hu, ?_, ?_⟩
    · rw [← u.bare_name, hbare, Tensor.moved_name, Tensor.bare_name]
    · rw [← u.bare_data, hbare, Tensor.isSome_data_moved]
      exact hdata

theorem Intake.mem_startNames {title : String} :
    name ∈ startNames (g.loweredGraph title) ↔ GivenIn s g name ∧
      Mentions (s.boundary s.subgraph.inputs) (g.lowered s.calls (s.tag layouts)) name := by
  have hk := h.adapted_named hclash
  have hinputs := h.adapted_inputs
  have hnodes := h.nodesAt_loweredOrder hvacant hclash
  rw [loweredGraph, Graph.mem_startNames hk, GivenIn, ← h.data_adapted hvacant hclash]
  constructor
  · rintro ⟨id, u, he, rfl, hsome⟩
    obtain ⟨hu, hmention⟩ := (mem_mentioned hk).mp he
    rw [hinputs, hnodes] at hmention
    rw [hinputs] at hsome
    exact ⟨hsome.elim (fun hd => Or.inr ⟨u, List.mem_of_getElem? hu, rfl, hd⟩) Or.inl, hmention⟩
  · rintro ⟨hgiven, hmention⟩
    rw [← hinputs, ← hnodes] at hmention
    obtain ⟨id, u, he, rfl⟩ := hk.exists_mentioned hmention
    refine ⟨id, u, he, rfl, ?_⟩
    rw [hinputs]
    rcases hgiven with hmem | ⟨u', hu', heq, hd⟩
    · exact Or.inr hmem
    · obtain rfl := hk.eq_of_mem hu' (List.mem_of_getElem? ((mem_mentioned hk).mp he).1) heq
      exact Or.inl hd

end Lowered

end Relayout.Graph
