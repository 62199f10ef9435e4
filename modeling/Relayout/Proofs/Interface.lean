/-
# The interface of a converted graph

A converted graph has the inputs and outputs of its source, and describes every
value once.  Names matter here, and emission works with identifiers: it goes
through the boundary and the operands by first mention and sorts what it finds
into lists.  Where names are distinct, naming a list of identifiers keeps first
occurrences (`eraseDups_filterMap`), so that each list of the converted graph is
a part of the mentioned identifiers, named.  That no name occurs twice is then
that no identifier does, and that an identifier has one role.

Nothing is asked of the names of the source: adapting keeps names and boundary
(`Framed`) whatever the names are.
-/
import Relayout.Proofs.Identity

namespace Relayout

/-! ## First occurrences -/

section FirstOccurrences

variable {α β : Type} [DecidableEq α] [DecidableEq β]

theorem nodup_eraseDups (xs : List α) : xs.eraseDups.Nodup := by
  induction hn : xs.length using Nat.strong_induction_on generalizing xs with
  | _ n ih =>
      subst hn
      cases xs with
      | nil => simp
      | cons a xs =>
          rw [List.eraseDups_cons, List.nodup_cons, List.mem_eraseDups]
          exact ⟨by simp, ih _ (Nat.lt_succ_of_le (List.length_filter_le _ xs)) _ rfl⟩

/-- A part of a list, renamed, keeps its first occurrences. -/
theorem eraseDups_filterMap {f : α → Option β}
    (hf : ∀ a a' b, f a = some b → f a' = some b → a = a') (xs : List α) :
    (xs.filterMap f).eraseDups = xs.eraseDups.filterMap f := by
  induction hn : xs.length using Nat.strong_induction_on generalizing xs with
  | _ n ih =>
      subst hn
      cases xs with
      | nil => simp
      | cons a xs =>
          have hrest := ih _ (Nat.lt_succ_of_le (List.length_filter_le (!· == a) xs)) _ rfl
          rw [List.eraseDups_cons]
          cases ha : f a with
          | none =>
              rw [List.filterMap_cons_none ha, List.filterMap_cons_none ha, ← hrest,
                List.filterMap_filter]
              refine congrArg _ (List.filterMap_congr fun x _ => ?_)
              by_cases hx : x = a <;> simp [hx, ha]
          | some b =>
              rw [List.filterMap_cons_some ha, List.filterMap_cons_some ha, List.eraseDups_cons,
                ← hrest, List.filterMap_filter, List.filter_filterMap]
              refine congrArg _ (congrArg _ (List.filterMap_congr fun x _ => ?_))
              by_cases hx : x = a
              · simp [hx, ha]
              · cases hfx : f x with
                | none => simp
                | some c =>
                    have hne : c ≠ b := fun hc => hx (hf x a b (hc ▸ hfx) ha)
                    simp [hx, hne]

theorem foldl_eq_eraseDups (xs seen : List α) :
    xs.foldl (fun seen a => if a ∈ seen then seen else seen ++ [a]) seen =
      seen ++ (xs.filter (· ∉ seen)).eraseDups := by
  induction xs generalizing seen with
  | nil => simp
  | cons a xs ih =>
      rw [List.foldl_cons, ih]
      by_cases ha : a ∈ seen
      · simp [ha]
      · rw [if_neg ha, List.filter_cons_of_pos (by simpa using ha), List.eraseDups_cons,
          List.filter_filter, List.append_assoc]
        refine congrArg _ (congrArg _ (congrArg _ (List.filter_congr fun x _ => ?_)))
        by_cases hx : x = a <;> simp [hx]

end FirstOccurrences

namespace Graph

variable {s : Scope} {layouts : SortedMap ExplicitLayout} {g g' k : Graph} {id : TensorId}
  {name title : String} {order : List OpId} {r : Role} {graph : Target.Graph}

/-! ## Tensors by role -/

theorem referenced_eq (inputs : List TensorId) (os : List Operator) :
    referenced inputs os =
      (inputs ++ os.flatMap fun o => o.inputs ++ o.outputs).eraseDups := by
  rw [referenced, foldl_eq_eraseDups]
  simp

/-- The identifiers that the boundary or an emitted operator mentions. -/
def mentionedIds (k : Graph) (order : List OpId) : List TensorId :=
  referenced k.inputs (order.filterMap k.opAt?)

/-- The role that a tensor has once it is converted. -/
def roleAt? (k : Graph) (id : TensorId) : Option Role :=
  k.tensors[id.index]?.map fun t => k.role id t.node

/-- The name of a tensor, if it has a given role. -/
def nameIn? (k : Graph) (r : Role) (id : TensorId) : Option String :=
  if k.roleAt? id = some r then k.nameOf? id else none

theorem nameIn?_eq_some : k.nameIn? r id = some name ↔
    k.roleAt? id = some r ∧ k.nameOf? id = some name := by
  rw [nameIn?]
  split <;> simp_all

/-- The names of the tensors in a role are those that are mentioned in it. -/
theorem names_inRole (k : Graph) (order : List OpId) (r : Role) :
    (inRole r ((k.mentioned order).map fun e =>
      (k.role e.1 e.2.node, e.2.node))).map Target.TensorNode.name =
        (k.mentionedIds order).filterMap (k.nameIn? r) := by
  rw [inRole, mentioned, mentionedIds]
  induction referenced k.inputs (order.filterMap k.opAt?) with
  | nil => rfl
  | cons id ids ih =>
      cases ht : k.tensors[id.index]? with
      | none =>
          have hnone : k.nameIn? r id = none := by simp [nameIn?, nameOf?, ht]
          rw [List.filterMap_cons_none (show k.located? id = none by rw [located?, ht]; rfl),
            List.filterMap_cons_none hnone, ih]
      | some t =>
          rw [List.filterMap_cons_some (show k.located? id = some (id, t) by rw [located?, ht]; rfl)]
          by_cases hr : k.role id t.node = r
          · have hsome : k.nameIn? r id = some t.name := by simp [nameIn?, nameOf?, roleAt?, ht, hr]
            simp only [List.map_cons, List.filter_cons_of_pos, hr, BEq.rfl]
            rw [List.filterMap_cons_some hsome, ← ih]
            rfl
          · have hnone : k.nameIn? r id = none := by simp [nameIn?, roleAt?, ht, hr]
            rw [List.filterMap_cons_none hnone, ← ih, List.map_cons,
              List.filter_cons_of_neg (by simpa using hr)]

/-! ## Written names -/

theorem nodup_mentionedIds (k : Graph) (order : List OpId) : (k.mentionedIds order).Nodup := by
  rw [mentionedIds, referenced_eq]
  exact nodup_eraseDups _

/-- Where names are distinct, a name is in a role exactly if its tensor is. -/
theorem Named.mem_nameIn? (hk : k.Named) (hname : k.nameOf? id = some name)
    {ids : List TensorId} :
    name ∈ ids.filterMap (k.nameIn? r) ↔ id ∈ ids ∧ k.roleAt? id = some r := by
  rw [List.mem_filterMap]
  constructor
  · rintro ⟨id', hid', hin⟩
    obtain ⟨hrole, hname'⟩ := nameIn?_eq_some.mp hin
    obtain rfl := hk.eq_of_nameOf? hname hname'
    exact ⟨hid', hrole⟩
  · exact fun ⟨hid, hrole⟩ => ⟨id, hid, nameIn?_eq_some.mpr ⟨hrole, hname⟩⟩

theorem Named.nodup_nameIn? (hk : k.Named) {ids : List TensorId} (hids : ids.Nodup) (r : Role) :
    (ids.filterMap (k.nameIn? r)).Nodup :=
  hids.filterMap fun _ _ _ h h' =>
    hk.eq_of_nameOf? (nameIn?_eq_some.mp h).2 (nameIn?_eq_some.mp h').2

/-- A tensor has one role. -/
theorem Named.disjoint_nameIn? (hk : k.Named) {r' : Role} (hne : r ≠ r') (ids : List TensorId) :
    (ids.filterMap (k.nameIn? r)).Disjoint (ids.filterMap (k.nameIn? r')) := by
  intro name h h'
  obtain ⟨id, -, hin⟩ := List.mem_filterMap.mp h
  obtain ⟨hrole, hname⟩ := nameIn?_eq_some.mp hin
  have hrole' := ((hk.mem_nameIn? hname).mp h').2
  exact hne (Option.some.inj (hrole.symm.trans hrole'))

theorem roleAt?_eq_input : k.roleAt? id = some .input ↔
    id ∈ k.inputs ∧ ∃ t, k.tensors[id.index]? = some t ∧ t.data.isSome = false := by
  rw [roleAt?, Option.map_eq_some_iff]
  constructor
  · rintro ⟨t, ht, hr⟩
    obtain ⟨hdata, hid⟩ := role_eq_input.mp hr
    exact ⟨hid, t, ht, hdata⟩
  · exact fun ⟨hid, t, ht, hdata⟩ => ⟨t, ht, role_eq_input.mpr ⟨hdata, hid⟩⟩

theorem roleAt?_eq_initializer : k.roleAt? id = some .initializer ↔
    ∃ t, k.tensors[id.index]? = some t ∧ t.data.isSome = true := by
  simp only [roleAt?, Option.map_eq_some_iff, role_eq_initializer]
  rfl

theorem not_mem_outputs_of_roleAt? (h : k.roleAt? id = some .value) : id ∉ k.outputs := by
  obtain ⟨t, -, hr⟩ := Option.map_eq_some_iff.mp h
  unfold role at hr
  repeat' split at hr
  all_goals simp_all

/-- The inputs that are written are those that are no constants, once each. -/
theorem Named.names_inputs (hk : k.Named) (order : List OpId) :
    (k.mentionedIds order).filterMap (k.nameIn? .input) =
      ((k.inputs.filterMap k.nameOf?).filter
        (· ∉ (k.mentionedIds order).filterMap (k.nameIn? .initializer))).eraseDups := by
  have hinput : ∀ id ∈ k.inputs, id ∈ k.mentionedIds order := fun id hid => by
    rw [mentionedIds, mem_referenced]
    exact Or.inl hid
  -- only what stands at the boundary is an input
  have hrest : ∀ ids : List TensorId,
      ((ids.removeAll k.inputs).eraseDups.filterMap (k.nameIn? .input)) = [] := by
    intro ids
    rw [List.filterMap_eq_nil_iff]
    intro id hid
    rw [nameIn?, if_neg]
    intro hrole
    rw [List.mem_eraseDups, List.removeAll, List.mem_filter] at hid
    exact absurd (roleAt?_eq_input.mp hrole).1 (by simpa using hid.2)
  have hsplit : (k.mentionedIds order).filterMap (k.nameIn? .input) =
      (k.inputs.filterMap (k.nameIn? .input)).eraseDups := by
    rw [eraseDups_filterMap fun id id' name h h' =>
      hk.eq_of_nameOf? (nameIn?_eq_some.mp h).2 (nameIn?_eq_some.mp h').2]
    rw [mentionedIds, referenced_eq, List.eraseDups_append, List.filterMap_append, hrest,
      List.append_nil]
  rw [hsplit, List.filter_filterMap]
  refine congrArg _ (List.filterMap_congr fun id hid => ?_)
  cases ht : k.tensors[id.index]? with
  | none => simp [nameIn?, nameOf?, ht]
  | some t =>
      have hname : k.nameOf? id = some t.name := by rw [nameOf?, ht, Option.map_some]
      have hconstant : t.name ∈ (k.mentionedIds order).filterMap (k.nameIn? .initializer) ↔
          t.data.isSome = true := by
        simp [hk.mem_nameIn? hname, roleAt?_eq_initializer, ht, hinput id hid]
      have hrole : k.roleAt? id = some .input ↔ t.data.isSome = false := by
        simp [roleAt?_eq_input, ht, hid]
      rw [nameIn?, hname, Option.filter_some]
      simp only [hrole, hconstant, decide_eq_true_eq, Bool.not_eq_true]

end Graph

/-! ## The interface -/

/-- The names of the tensors of a subgraph at given positions. -/
def Source.Subgraph.Names (sub : Source.Subgraph) (indices : List UInt64) (names : List String) :
    Prop :=
  names.map some = indices.map fun index => sub.tensors[index.toNat]?.map Source.TensorDecl.name

namespace Target.Graph

/-- A graph has the outputs of a subgraph, and those of its inputs that are no
constants, once each. -/
structure Presents (graph : Target.Graph) (sub : Source.Subgraph) : Prop where
  outputs : sub.Names sub.outputs (graph.outputs.map TensorNode.name)
  inputs : ∃ names, sub.Names sub.inputs names ∧ graph.inputs.map TensorNode.name =
    (names.filter (· ∉ graph.initializers.map TensorNode.name)).eraseDups

/-- A graph describes every value that it mentions, and has one description of
it. -/
structure Describes (graph : Target.Graph) : Prop where
  once : ((graph.initializers ++ graph.inputs ++ graph.valueInfos).map TensorNode.name).Nodup
  between : ∀ t ∈ graph.valueInfos, t.name ∉ graph.outputs.map TensorNode.name
  found : ∀ node ∈ graph.nodes, ∀ name ∈ node.inputs ++ node.outputs,
    ∃ t, graph.tensor? name = some t ∧ t.name = name
  same : ∀ t ∈ graph.tensors, ∀ u ∈ graph.tensors, t.name = u.name → t = u

theorem exists_tensor? {graph : Target.Graph} {t : TensorNode} (h : t ∈ graph.tensors) :
    ∃ u, graph.tensor? t.name = some u ∧ u.name = t.name := by
  have hsome : (graph.tensor? t.name).isSome = true :=
    List.find?_isSome.mpr ⟨t, h, beq_self_eq_true _⟩
  obtain ⟨u, hu⟩ := Option.isSome_iff_exists.mp hsome
  exact ⟨u, hu, by simpa using List.find?_some hu⟩

end Target.Graph

/-- The boundary of a subgraph, as it is read. -/
theorem Scope.names_boundary {s : Scope} {indices : List UInt64}
    (h : (s.boundary indices).map some = indices.map fun index => s.nameAt? index.toInt64) :
    s.subgraph.Names indices (s.boundary indices) := by
  rw [Source.Subgraph.Names, h]
  refine List.map_congr_left fun index hindex => ?_
  have hread : s.nameAt? index.toInt64 ∈ (s.boundary indices).map some :=
    h ▸ List.mem_map_of_mem hindex
  obtain ⟨name, -, hname⟩ := List.mem_map.mp hread
  rw [← hname]
  exact (Scope.nameOf?_toNat hname.symm).symm

namespace Graph

variable {s : Scope} {layouts : SortedMap ExplicitLayout} {g g' k : Graph} {title : String}
  {order : List OpId} {graph : Target.Graph}

theorem names_outputs : (k.targetOf title order).outputs.map Target.TensorNode.name =
    k.outputs.filterMap k.nameOf? := by
  rw [targetOf, List.map_map, List.map_filterMap]
  refine List.filterMap_congr fun id _ => ?_
  rw [located?, Option.map_map]
  rfl

theorem Intake.presents (h : Intake s layouts g) (hclash : ¬g.Clash) :
    (g.adapted.targetOf title order).Presents s.subgraph where
  outputs := by
    rw [names_outputs, h.adapted_outputs]
    exact Scope.names_boundary h.outputs_named
  inputs := by
    refine ⟨_, Scope.names_boundary h.inputs_named, ?_⟩
    rw [targetOf, names_inRole, names_inRole, (h.adapted_named hclash).names_inputs,
      h.adapted_inputs]

theorem Named.describes (hk : k.Named)
    (hrun : k.rendering title order = .ok (k.targetOf title order)) :
    (k.targetOf title order).Describes where
  once := by
    have hids := k.nodup_mentionedIds order
    rw [targetOf, List.map_append, List.map_append, names_inRole, names_inRole, names_inRole]
    refine ((hk.nodup_nameIn? hids _).append (hk.nodup_nameIn? hids _)
      (hk.disjoint_nameIn? (by decide) _)).append (hk.nodup_nameIn? hids _) ?_
    exact List.disjoint_append_left.mpr
      ⟨hk.disjoint_nameIn? (by decide) _, hk.disjoint_nameIn? (by decide) _⟩
  between := by
    intro t ht hmem
    have hvalue : t.name ∈ (k.mentionedIds order).filterMap (k.nameIn? .value) := by
      rw [← names_inRole]
      exact List.mem_map_of_mem ht
    obtain ⟨id, -, hin⟩ := List.mem_filterMap.mp hvalue
    obtain ⟨hrole, hname⟩ := nameIn?_eq_some.mp hin
    obtain ⟨u, hu, hname⟩ := Option.map_eq_some_iff.mp hname
    rw [names_outputs, ← hname, hk.mem_filterMap_nameOf? hu] at hmem
    exact not_mem_outputs_of_roleAt? hrole hmem
  found := by
    intro node hnode name hname
    have hmention : Mentions (k.inputs.filterMap k.nameOf?) (k.nodesAt order) name :=
      Or.inr ⟨node, hnode, List.mem_append.mp hname⟩
    obtain ⟨id, u, he, rfl⟩ := hk.exists_mentioned hmention
    exact Target.Graph.exists_tensor? (mem_tensors_of_mentioned he)
  same := fun _ ht _ hu => hk.eq_of_mem_rendering hrun ht hu

/-- What emission makes of an adapted graph. -/
theorem Intake.presents_and_describes (h : Intake s layouts g) (hclash : ¬g.Clash)
    (hrun : convert title g.adapted = .ok graph g') :
    graph.Presents s.subgraph ∧ graph.Describes := by
  have hnamed := h.adapted_named hclash
  obtain ⟨order, hrendering⟩ := (h.adapted_sound hclash).rendering_of_convert hrun
  obtain rfl := ((rendering_eq_ok h.framed.settled).mp hrendering).2.2.2.2
  exact ⟨h.presents hclash, hnamed.describes hrendering⟩

end Graph

namespace Conversion

/-- A converted graph has the interface of its source and describes every value
once, whether it is the graph of a model or a subgraph by itself. -/
theorem convert_interface (m : Source.Model) (o : Options) :
    (∀ index graph, (convertSubgraph m index o).outcome = .ok graph →
      ∃ sub, m.subgraphs[index]? = some sub ∧ graph.Presents sub ∧ graph.Describes) ∧
    ∀ model, (convertModel m o).outcome = .ok model →
      ∃ sub, m.subgraphs = [sub] ∧ model.graph.Presents sub ∧ model.graph.Describes := by
  constructor
  · intro index graph h
    obtain ⟨sub, g, g', hsub, hg, hclash, hrun⟩ := convertSubgraph_eq_ok h
    exact ⟨sub, hsub, hg.intake.presents_and_describes hclash hrun⟩
  · intro model h
    obtain ⟨sub, g, g', hsub, hg, hclash, hrun⟩ := convertModel_eq_ok h
    exact ⟨sub, hsub, hg.intake.presents_and_describes hclash hrun⟩

/-- An input that is declared twice and is an output as well, a constant among
the inputs, and an output that is written behind a transpose and declared
twice. -/
def boundarySubgraph : Source.Subgraph where
  name := none
  tensors := [⟨"x", [4], .float32, 0, none⟩, ⟨"s", [4], .int32, 1, none⟩,
    ⟨"y", [1, 2, 1, 2], .float32, 0, none⟩]
  operators := [⟨0, [0, 1], [2], .none⟩]
  inputs := [0, 1, 0]
  outputs := [2, 0, 2]

def boundaryModel : Source.Model :=
  reshapeModel [[], [1, 0, 0, 0, 2, 0, 0, 0, 1, 0, 0, 0, 2, 0, 0, 0]] boundarySubgraph

def boundaryOptions : Options :=
  { sharedOptions with explicitLayouts := .insert .empty "y" ⟨"NHWC", "NCHW"⟩ }

theorem convert_interface_boundary :
    ∃ model graph, (convertModel boundaryModel boundaryOptions).outcome = .ok model ∧
      (convertSubgraph boundaryModel 0 boundaryOptions).outcome = .ok graph ∧
      model.graph.Presents boundarySubgraph ∧ model.graph.Describes ∧
      graph.Presents boundarySubgraph ∧ graph.Describes ∧
      graph.initializers.map Target.TensorNode.name = ["s"] ∧
      graph.inputs.map Target.TensorNode.name = ["x"] ∧
      graph.outputs.map Target.TensorNode.name = ["y", "x", "y"] ∧
      graph.valueInfos.map Target.TensorNode.name = ["TFLITE2ONNX_ToTranspose_y"] := by
  obtain ⟨model, hmodel, -⟩ :=
    exists_of_outcome boundaryModel boundaryOptions (fun _ => true) (by decide +kernel)
  obtain ⟨graph, hgraph, hseen⟩ :=
    (convertSubgraph boundaryModel 0 boundaryOptions).exists_of_outcome (fun graph => decide (
      graph.initializers.map Target.TensorNode.name = ["s"] ∧
      graph.inputs.map Target.TensorNode.name = ["x"] ∧
      graph.outputs.map Target.TensorNode.name = ["y", "x", "y"] ∧
      graph.valueInfos.map Target.TensorNode.name = ["TFLITE2ONNX_ToTranspose_y"]))
      (by decide +kernel)
  obtain ⟨sub, hsub, hpresents, hdescribes⟩ :=
    (convert_interface boundaryModel boundaryOptions).2 model hmodel
  cases hsub
  obtain ⟨sub, hsub, hpresents', hdescribes'⟩ :=
    (convert_interface boundaryModel boundaryOptions).1 0 graph hgraph
  cases hsub
  exact ⟨model, graph, hmodel, hgraph, hpresents, hdescribes, hpresents', hdescribes',
    of_decide_eq_true hseen⟩

end Conversion

end Relayout
