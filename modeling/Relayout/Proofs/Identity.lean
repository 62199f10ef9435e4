/-
# Tensors and names

A converted graph has one tensor for a name.  So two tensors of the source
become one if they share their name, and a tensor that the conversion makes up
is one of the source if the source asks for a tensor of that name.  Which names
are made up is read off the source, so that a reserved name does no harm unless
it is one of them.
-/
import Relayout.Proofs.Graph.Invented
import Relayout.Proofs.TargetForm

namespace Relayout

namespace Graph

variable {s : Scope} {layouts : SortedMap ExplicitLayout} {g g' k : Graph} {u : Tensor}
  {id : TensorId} {name : String} {order : List OpId} {graph : Target.Graph}

/-! ## One tensor for a name -/

/-- A tensor is written under its own name. -/
theorem name_of_rendered {node : Target.TensorNode} (h : u.rendered = .ok node) :
    node.name = u.name := by
  rw [u.rendered_eq] at h
  cases hdata : u.emittedData with
  | error e =>
      rw [hdata] at h
      cases h
  | ok data =>
      rw [hdata] at h
      dsimp only at h
      cases hcheck : Target.checkTensor (u.nodeWith data) with
      | error e =>
          rw [hcheck] at h
          cases h
      | ok _ =>
          rw [hcheck] at h
          cases h
          rfl

theorem mem_of_mapM_eq_ok {α β ε : Type} {f : α → Except ε β} {xs : List α} {ys : List β}
    (h : xs.mapM f = .ok ys) {y : β} (hy : y ∈ ys) : ∃ x ∈ xs, f x = .ok y := by
  induction xs generalizing ys with
  | nil =>
      cases h
      cases hy
  | cons x xs ih =>
      rw [List.mapM_cons, bind_eq_ok] at h
      obtain ⟨y', hy', h⟩ := h
      obtain ⟨ys', hys', heq⟩ := bind_eq_ok.mp h
      cases heq
      rcases List.mem_cons.mp hy with rfl | hy
      · exact ⟨x, List.mem_cons_self, hy'⟩
      · obtain ⟨x', hx', heq⟩ := ih hys' hy
        exact ⟨x', List.mem_cons_of_mem _ hx', heq⟩

/-- Every tensor of a written graph is one of the graph, written. -/
theorem exists_of_mem_rendering (h : k.rendering name order = .ok graph)
    {node : Target.TensorNode} (hnode : node ∈ graph.tensors) :
    ∃ u ∈ k.tensors, u.rendered = .ok node := by
  unfold rendering at h
  obtain ⟨nodes, -, h⟩ := bind_eq_ok.mp h
  obtain ⟨tensors, htensors, h⟩ := bind_eq_ok.mp h
  obtain ⟨outputs, houtputs, h⟩ := bind_eq_ok.mp h
  obtain ⟨_, -, heq⟩ := bind_eq_ok.mp h
  cases heq
  have hmentioned : ∀ r, node ∈ inRole r tensors → ∃ u ∈ k.tensors, u.rendered = .ok node := by
    intro r hr
    obtain ⟨e, he, hwritten⟩ := mem_of_mapM_eq_ok htensors (mem_inRole.mp hr)
    obtain ⟨id, -, hid⟩ := List.mem_filterMap.mp he
    obtain ⟨node', hrendered, heq⟩ := bind_eq_ok.mp hwritten
    cases heq
    exact ⟨e.2, List.mem_of_getElem? (mem_of_located? hid).2, hrendered⟩
  simp only [Target.Graph.tensors, List.mem_append] at hnode
  rcases hnode with ((hnode | hnode) | hnode) | hnode
  · exact hmentioned _ hnode
  · exact hmentioned _ hnode
  · obtain ⟨e, he, hrendered⟩ := mem_of_mapM_eq_ok houtputs hnode
    obtain ⟨id, -, hid⟩ := List.mem_filterMap.mp he
    exact ⟨e.2, List.mem_of_getElem? (mem_of_located? hid).2, hrendered⟩
  · exact hmentioned _ hnode

/-- What emission answers is the graph, written in some order. -/
theorem Sound.rendering_of_convert (h : k.Sound) (hrun : convert name k = .ok graph g') :
    ∃ order, k.rendering name order = .ok graph := by
  obtain ⟨order, -, hdenotes⟩ := h.convert_denotes name
  refine ⟨order, ?_⟩
  cases hrendering : k.rendering name order with
  | ok written =>
      rw [hrendering] at hdenotes
      obtain ⟨_, heq⟩ := hdenotes
      rw [hrun] at heq
      cases heq
      rfl
  | error e =>
      rw [hrendering] at hdenotes
      obtain ⟨_, heq⟩ := hdenotes
      rw [hrun] at heq
      cases heq

/-- Names tell the tensors of a written graph apart. -/
theorem Named.eq_of_mem_rendering (hk : k.Named) (h : k.rendering name order = .ok graph)
    {node node' : Target.TensorNode} (hnode : node ∈ graph.tensors)
    (hnode' : node' ∈ graph.tensors) (hname : node.name = node'.name) : node = node' := by
  obtain ⟨u, hu, hr⟩ := exists_of_mem_rendering h hnode
  obtain ⟨u', hu', hr'⟩ := exists_of_mem_rendering h hnode'
  have hsame : u.name = u'.name := by rw [← name_of_rendered hr, hname, name_of_rendered hr']
  obtain rfl := hk.eq_of_mem hu hu' hsame
  exact Except.ok.inj (hr.symm.trans hr')

/-- Everything that the source refers to is a tensor of its own among `tensors`, and
no tensor that is made up is found under a name that the source asks for. -/
structure KeepsApart (s : Scope) (layouts : SortedMap ExplicitLayout) (k : Graph)
    (tensors : List Target.TensorNode) : Prop where
  sources : ∀ p q, s.Refers p → s.Refers q → p ≠ q → ∃ node ∈ tensors, ∃ node' ∈ tensors,
    s.nameOf? p = some node.name ∧ s.nameOf? q = some node'.name ∧ node ≠ node'
  invented : ∀ id, Invented s k id → ∀ name, s.AsksFor layouts name → k.lookup? name ≠ some id

end Graph

namespace Conversion

open Relayout.Graph

/-- Tensors are identified by their names.  No two tensors of a converted graph
have the same one.  Where nothing that the source asks for has a name that is made
up, all that it refers to is there under its name.  And tensors are kept apart just
where names keep them apart: the source refers to no two tensors of one name, and
asks for none of a name that is made up. -/
theorem convertModel_identity {m : Source.Model} {o : Options} {model : Target.Model}
    {sub : Source.Subgraph} (h : (convertModel m o).outcome = .ok model)
    (hsub : m.subgraphs = [sub]) :
    (∀ node ∈ model.graph.tensors, ∀ node' ∈ model.graph.tensors,
        node.name = node'.name → node = node') ∧
      ((∀ name, (scopeOf m sub o).AsksFor o.explicitLayouts name →
          name ∉ (scopeOf m sub o).madeUp o.explicitLayouts) →
        ∀ p, (scopeOf m sub o).Refers p →
          ∃ node ∈ model.graph.tensors, (scopeOf m sub o).nameOf? p = some node.name) ∧
      ∃ g g' k, IsIntake (scopeOf m sub o) o.explicitLayouts g ∧ transform g = .ok () g' ∧
        convert (sub.name.getD defaultGraphName) g' = .ok model.graph k ∧
        (KeepsApart (scopeOf m sub o) o.explicitLayouts g' model.graph.tensors ↔
          (scopeOf m sub o).Apart o.explicitLayouts) := by
  obtain ⟨sub', g, k, hsub', hg, hclash, hrun⟩ := convertModel_eq_ok h
  rw [hsub] at hsub'
  cases hsub'
  have hin := hg.intake
  obtain ⟨order, hrendering⟩ := (hin.adapted_sound hclash).rendering_of_convert hrun
  have hsame : ∀ node ∈ model.graph.tensors, ∀ node' ∈ model.graph.tensors,
      node.name = node'.name → node = node' := fun node hnode node' hnode' =>
    (hin.adapted_named hclash).eq_of_mem_rendering hrendering hnode hnode'
  have hwritten : (∀ name, (scopeOf m sub o).AsksFor o.explicitLayouts name →
      name ∉ (scopeOf m sub o).madeUp o.explicitLayouts) → ∀ p, (scopeOf m sub o).Refers p →
        ∃ node ∈ model.graph.tensors, (scopeOf m sub o).nameOf? p = some node.name := by
    intro hfree p hp
    have hvacant := hin.vacant_of_asksFor hfree
    obtain ⟨name, hname, node, hnode, rfl⟩ :=
      hg.exists_written hvacant hclash hp (sub.name.getD defaultGraphName)
    obtain ⟨-, -, -, -, heq⟩ := (hin.convert_eq_ok_iff hvacant hclash _).mp ⟨k, hrun⟩
    exact ⟨node, heq ▸ hnode, hname⟩
  refine ⟨hsame, hwritten, g, g.adapted, k, hg, hin.run_transform hclash, hrun, ?_, ?_⟩
  · rintro ⟨hsources, hinvented⟩
    refine ⟨fun p q hp hq heq => ?_, fun name hname hmade => ?_⟩
    · by_contra hne
      obtain ⟨node, hnode, node', hnode', hpname, hqname, hdiffer⟩ := hsources p q hp hq hne
      exact hdiffer (hsame node hnode node' hnode'
        (Option.some.inj (hpname.symm.trans (heq.trans hqname))))
    · obtain ⟨id, hid, hnamed⟩ := hin.exists_invented hclash hmade
      exact hinvented id hid name hname ((hin.adapted_named hclash _ _).mpr hnamed)
  · rintro ⟨hsources, hfree⟩
    refine ⟨fun p q hp hq hne => ?_, fun id hid name hname hfound => ?_⟩
    · obtain ⟨node, hnode, hpname⟩ := hwritten hfree p hp
      obtain ⟨node', hnode', hqname⟩ := hwritten hfree q hq
      refine ⟨node, hnode, node', hnode', hpname, hqname, fun heq => hne ?_⟩
      exact hsources p q hp hq (by rw [hpname, hqname, heq])
    · obtain ⟨made, hmade, hnamed⟩ :=
        hin.madeUp_of_invented (hin.vacant_of_asksFor hfree) hclash hid
      rw [(hin.adapted_named hclash _ _).mp hfound] at hnamed
      exact hfree name hname (Option.some.inj hnamed ▸ hmade)

def reshapeModel (buffers : List (List UInt8)) (sub : Source.Subgraph) : Source.Model :=
  ⟨3, none, [.reshape], buffers, [sub]⟩

def plainOptions : Options := { sharedOptions with explicitLayouts := .empty }

/-- An input with a reserved name that is not made up. -/
def reservedNameSubgraph : Source.Subgraph where
  name := none
  tensors := [⟨"TFLITE2ONNX_Vector_x", [2, 2], .float32, 0, none⟩, ⟨"z", [4], .float32, 0, none⟩]
  operators := [⟨0, [0], [1], .reshape [4]⟩]
  inputs := [0]
  outputs := [1]

def reservedNameModel : Source.Model := reshapeModel [[]] reservedNameSubgraph

def reservedNameOptions : Options :=
  { sharedOptions with explicitLayouts := .insert .empty "TFLITE2ONNX_Vector_x" ⟨"AB", "BA"⟩ }

/-- The vector of the shape and the other form of the input are tensors of their
own, and so are input and output. -/
theorem convertModel_identity_reservedName : ∃ model g',
    (convertModel reservedNameModel reservedNameOptions).outcome = .ok model ∧
      (∃ node ∈ model.graph.tensors, ∃ node' ∈ model.graph.tensors,
        node.name = "TFLITE2ONNX_Vector_x" ∧ node'.name = "z" ∧ node ≠ node') ∧
      ∀ id ∈ [TensorId.mk 1, TensorId.mk 3],
        Invented (scopeOf reservedNameModel reservedNameSubgraph reservedNameOptions) g' id ∧
          g'.lookup? "TFLITE2ONNX_Vector_x" ≠ some id ∧ g'.lookup? "z" ≠ some id := by
  obtain ⟨model, hmodel, -⟩ :=
    exists_of_outcome reservedNameModel reservedNameOptions (fun _ => true) (by decide +kernel)
  obtain ⟨g, g', hg, hrun, hseen⟩ := exists_of_adaptedIntake?
    (scopeOf reservedNameModel reservedNameSubgraph reservedNameOptions)
    reservedNameOptions.explicitLayouts
    (fun r => decide ((r.2.ops[0]?.bind fun o : Operator => o.inputs[1]?) = some (TensorId.mk 1) ∧
      (r.2.ops[0]?.bind fun o : Operator => o.inputs[0]?) = some (TensorId.mk 3) ∧
      r.2.nameOf? ⟨3⟩ ≠ some "TFLITE2ONNX_Vector_x")) (by decide +kernel)
  obtain ⟨hvector, hread, hother⟩ := of_decide_eq_true hseen
  obtain ⟨o, ho, hshape⟩ := Option.bind_eq_some_iff.mp hvector
  rw [ho, Option.bind_some] at hread
  have hdistinct :
      (scopeOf reservedNameModel reservedNameSubgraph reservedNameOptions).Distinct := by
    unfold Scope.Distinct
    decide
  -- both runs read the same graph
  obtain ⟨-, -, g₁, g₂, -, hg₁, hrun₁, -, hiff⟩ := convertModel_identity hmodel rfl
  obtain rfl : g₁ = g := (EStateM.Result.ok.inj (hg₁.symm.trans hg)).2
  obtain rfl : g₂ = g' := (EStateM.Result.ok.inj (hrun₁.symm.trans hrun)).2
  have hapart := hiff.mpr (hg.apart hdistinct (by decide +kernel))
  have hinput : (scopeOf reservedNameModel reservedNameSubgraph reservedNameOptions).Refers 0 :=
    Or.inr ⟨0, by decide, rfl⟩
  have houtput : (scopeOf reservedNameModel reservedNameSubgraph reservedNameOptions).Refers 1 :=
    Or.inr ⟨1, by decide, rfl⟩
  obtain ⟨node, hnode, node', hnode', hname, hname', hne⟩ :=
    hapart.sources 0 1 hinput houtput (by decide)
  have hfree : ∀ id, Invented (scopeOf reservedNameModel reservedNameSubgraph
      reservedNameOptions) g₂ id → Invented (scopeOf reservedNameModel reservedNameSubgraph
        reservedNameOptions) g₂ id ∧
        g₂.lookup? "TFLITE2ONNX_Vector_x" ≠ some id ∧ g₂.lookup? "z" ≠ some id := fun id hid =>
    ⟨hid, hapart.invented id hid _ (Or.inl ⟨0, hinput, rfl⟩),
      hapart.invented id hid _ (Or.inl ⟨1, houtput, rfl⟩)⟩
  refine ⟨model, g₂, hmodel, ⟨node, hnode, node', hnode', (Option.some.inj hname).symm,
    (Option.some.inj hname').symm, hne⟩, fun id hid => hfree id ?_⟩
  rcases List.mem_cons.mp hid with rfl | hid
  · exact .vector (i := 0) rfl (by decide) (by decide) ho hshape
  · obtain rfl := List.mem_singleton.mp hid
    exact .read (i := 0) (p := 0) rfl (by decide) ho hread hother

/-! ## Names that are made up -/

/-- The shape of the first reshape has the name of the one that is made up for
the second. -/
def vectorNameSubgraph : Source.Subgraph where
  name := none
  tensors := [⟨"x", [2, 2], .float32, 0, none⟩,
    ⟨"TFLITE2ONNX_Vector_z", [1], .int32, 1, none⟩, ⟨"y", [4], .float32, 0, none⟩,
    ⟨"z", [2, 2], .float32, 0, none⟩]
  operators := [⟨0, [0, 1], [2], .none⟩, ⟨0, [2], [3], .reshape [2, 2]⟩]
  inputs := [0]
  outputs := [3]

def vectorNameModel : Source.Model := reshapeModel [[], [4, 0, 0, 0]] vectorNameSubgraph

/-- What the first reshape writes has the name of the other form of what the
second one reads. -/
def turnedNameSubgraph : Source.Subgraph where
  name := none
  tensors := [⟨"a", [4], .float32, 0, none⟩, ⟨"s", [2], .int32, 1, none⟩,
    ⟨"TFLITE2ONNX_Transposed_x", [2, 2], .float32, 0, none⟩, ⟨"x", [2, 2], .float32, 2, none⟩,
    ⟨"t", [1], .int32, 3, none⟩, ⟨"z", [4], .float32, 0, none⟩]
  operators := [⟨0, [0, 1], [2], .none⟩, ⟨0, [3, 4], [5], .none⟩]
  inputs := [0]
  outputs := [2, 5]

def turnedNameModel : Source.Model :=
  reshapeModel [[], [2, 0, 0, 0, 2, 0, 0, 0],
    [0, 0, 128, 63, 0, 0, 128, 63, 0, 0, 128, 63, 0, 0, 128, 63], [4, 0, 0, 0]]
    turnedNameSubgraph

def turnedNameOptions : Options :=
  { sharedOptions with explicitLayouts := .insert .empty "x" ⟨"AB", "BA"⟩ }

/-- Two conversions that go through.  In the first one the shape that is made up for
the second reshape is a tensor of the source, with other values; in the second one
the transpose in front of the second reshape is a reshape of the source, and the
constant to turn is nowhere in the converted graph. -/
theorem convertModel_aliases :
    (∃ model g g', (convertModel vectorNameModel plainOptions).outcome = .ok model ∧
      IsIntake (scopeOf vectorNameModel vectorNameSubgraph plainOptions) .empty g ∧
      transform g = .ok () g' ∧
      Invented (scopeOf vectorNameModel vectorNameSubgraph plainOptions) g' ⟨1⟩ ∧
      ∃ t, g'.tensors[1]? = some t ∧ t.sourceIndex = some 1 ∧
        t.data = some (.ofInts .int64 [4])) ∧
    ∃ model, (convertModel turnedNameModel turnedNameOptions).outcome = .ok model ∧
      (scopeOf turnedNameModel turnedNameSubgraph turnedNameOptions).Refers 3 ∧
      turnedNameSubgraph.tensors[3]?.map Source.TensorDecl.name = some "x" ∧
      ∀ node ∈ model.graph.tensors, node.name ≠ "x" := by
  constructor
  · obtain ⟨model, hmodel, -⟩ :=
      exists_of_outcome vectorNameModel plainOptions (fun _ => true) (by decide +kernel)
    obtain ⟨g, g', hg, hrun, hseen⟩ := exists_of_adaptedIntake?
      (scopeOf vectorNameModel vectorNameSubgraph plainOptions) .empty
      (fun r => decide ((r.2.ops[1]?.bind fun o : Operator => o.inputs[1]?) = some (TensorId.mk 1) ∧
        (r.2.tensors[1]?.map fun t : Tensor => (t.sourceIndex, t.data)) =
          some (some 1, some (Buffer.ofInts .int64 [4])))) (by decide +kernel)
    obtain ⟨hslot, hsource⟩ := of_decide_eq_true hseen
    obtain ⟨o, ho, hid⟩ := Option.bind_eq_some_iff.mp hslot
    obtain ⟨t, ht, heq⟩ := Option.map_eq_some_iff.mp hsource
    obtain ⟨hindex, hdata⟩ := Prod.mk.inj heq
    exact ⟨model, g, g', hmodel, hg, hrun, .vector (i := 1) rfl (by decide) (by decide) ho hid,
      t, ht, hindex, hdata⟩
  · obtain ⟨model, hmodel, hseen⟩ := exists_of_outcome turnedNameModel turnedNameOptions
      (fun model => model.graph.tensors.all fun node => node.name != "x") (by decide +kernel)
    refine ⟨model, hmodel, Or.inl ⟨⟨0, [3, 4], [5], .none⟩, by decide, 0, by decide⟩, rfl,
      fun node hnode hname => ?_⟩
    have hne := List.all_eq_true.mp hseen node hnode
    rw [hname] at hne
    exact absurd hne (by decide)

end Conversion

end Relayout
