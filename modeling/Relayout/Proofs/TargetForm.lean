/-
# What becomes of a source tensor

The converted form of a source tensor can be read off the source: its element
type from the reshapes that take it for a shape, its dimensions and its data from
the one layout that is asked for it.  No order of operators comes into it, and
nothing is moved twice.
-/
import Relayout.Proofs.Graph.Layouts
import Relayout.Proofs.WellFormed

namespace Relayout

namespace Scope

variable {s : Scope} {layouts : SortedMap ExplicitLayout} {p : Nat} {d : Source.TensorDecl}

/-- A constant of higher rank that a reshape reads as its shape. -/
def Flattened (s : Scope) (p : Nat) (d : Source.TensorDecl) : Prop :=
  s.IsShape p ∧ (s.constant? d).isSome = true ∧ 1 < d.shape.length

instance (s : Scope) (p : Nat) (d : Source.TensorDecl) : Decidable (s.Flattened p d) :=
  inferInstanceAs (Decidable (_ ∧ _ ∧ _))

/-- Shape operands have 64-bit elements. -/
def targetType (s : Scope) (p : Nat) (type : ElementType) : ElementType :=
  if s.IsShape p then .int64 else type

/-- The dimensions of the converted tensor. -/
def targetShape (s : Scope) (layouts : SortedMap ExplicitLayout) (p : Nat)
    (d : Source.TensorDecl) : Except Violation (List Nat) :=
  if s.Flattened p d then .ok [elementCount d.extents]
  else
    match s.layoutFor layouts p d with
    | some l => l.permute d.extents
    | none => .ok d.extents

/-- The data of the converted tensor: the constant behind it, cast, and permuted
over the declared dimensions where the layout moves something. -/
def targetData (s : Scope) (layouts : SortedMap ExplicitLayout) (p : Nat)
    (d : Source.TensorDecl) (type : ElementType) : Except Violation (Option Buffer) :=
  (s.constant? d).mapM fun b =>
    match s.layoutFor layouts p d with
    | some l => if l.isMatch then .ok (b.cast type) else (b.cast type).permute l d.extents
    | none => .ok (b.cast type)

/-- The converted form of the tensor `d` at position `p`, whose element type is
converted to `type`. -/
def targetNode (s : Scope) (layouts : SortedMap ExplicitLayout) (p : Nat)
    (d : Source.TensorDecl) (type : ElementType) : Except Violation Target.TensorNode := do
  let shape ← s.targetShape layouts p d
  let data ← s.targetData layouts p d (s.targetType p type)
  return ⟨d.name, s.targetType p type, shape.map Int64.ofNat, data⟩

end Scope

namespace Graph

variable {s : Scope} {layouts : SortedMap ExplicitLayout} {g : Graph} {t u : Tensor} {p : Nat}
  {d : Source.TensorDecl}

/-- The tensor at a position as it was read, whatever asked for it first. -/
structure AsDeclared (s : Scope) (p : Nat) (d : Source.TensorDecl) (type : ElementType)
    (t : Tensor) : Prop where
  name : t.name = d.name
  elementType : t.elementType = some (s.targetType p type)
  shape : t.shape = if s.Flattened p d then [elementCount d.extents] else d.extents
  data : t.data = (s.constant? d).map fun b => b.cast (s.targetType p type)
  sourceIndex : t.sourceIndex = some p

theorem shape_asShape_declared (s : Scope) (p : Nat) (d : Source.TensorDecl)
    (type : ElementType) (layout : Option Layout) (id : TensorId) :
    (Tensor.declared s p d type layout id).asShape.shape =
      if (s.constant? d).isSome = true ∧ 1 < d.shape.length then [elementCount d.extents]
      else d.extents := by
  change (if (s.constant? d).isSome = true ∧ 1 < d.extents.length then _ else _) = _
  simp only [d.length_extents]
  rfl

theorem Intake.asDeclared (h : Intake s layouts g) (hs : s.Distinct) (hnames : s.Unreserved)
    (ht : t ∈ g.tensors) (hd : s.subgraph.tensors[p]? = some d) (hname : d.name = t.name) :
    ∃ type, s.Reads d type ∧ AsDeclared s p d type t.bare := by
  have hp : s.nameOf? p = some t.name := by rw [Scope.nameOf?, hd, ← hname]; rfl
  obtain ⟨d', type, hd', -, hr, heq⟩ := h.tensor_at hs hnames ht hp
  rw [hd] at hd'
  cases hd'
  have hshape := h.mem_shapes_iff hs hp
  refine ⟨type, hr, ?_⟩
  by_cases huse : s.IsShape p
  · have htype : s.targetType p type = .int64 := if_pos huse
    rw [heq, if_pos (hshape.mpr huse)]
    refine ⟨rfl, congrArg some htype.symm, ?_, by rw [htype]; rfl, rfl⟩
    rw [shape_asShape_declared]
    by_cases hflat : s.Flattened p d
    · rw [if_pos hflat, if_pos hflat.2]
    · rw [if_neg hflat, if_neg fun hboth => hflat ⟨huse, hboth⟩]
  · have htype : s.targetType p type = type := if_neg huse
    rw [heq, if_neg fun hmem => huse (hshape.mp hmem)]
    refine ⟨rfl, congrArg some htype.symm, by rw [if_neg fun hflat => huse hflat.1]; rfl, ?_, rfl⟩
    rw [htype]
    change s.constant? d = _
    cases hb : s.constant? d with
    | none => rfl
    | some b =>
        exact congrArg some (Buffer.cast_of_elementType
          (Scope.constant?_elementType hr.converted hb)).symm

namespace AsDeclared

variable {type : ElementType} (h : AsDeclared s p d type u)
  (hrank : ∀ l, u.layout = some l → d.extents.length = l.rank) (hm : u.Movable)
  (hlayout : u.layout = s.layoutFor layouts p d)

section

include h hrank hm

/-- A layout that moves something is not that of a flattened constant. -/
theorem not_flattened {l : Layout} (hl : u.layout = some l) (hmatch : l.isMatch = false) :
    ¬s.Flattened p d := by
  intro hflat
  have hmoved := (hm l hl).resolve_left (by rw [hmatch]; exact Bool.false_ne_true)
  rw [Tensor.rank, h.shape, if_pos hflat, List.length_singleton, ← hrank l hl,
    d.length_extents] at hmoved
  have := hflat.2.2
  omega

end

include h hrank hm hlayout

theorem targetShape_eq : s.targetShape layouts p d = .ok u.moved.shape := by
  unfold Scope.targetShape
  rw [← hlayout]
  cases hl : u.layout with
  | none =>
      rw [Tensor.moved_of_layout_none hl, h.shape]
      split <;> rfl
  | some l =>
      cases hmatch : l.isMatch with
      | true =>
          rw [Tensor.moved_of_isMatch hl hmatch]
          dsimp only
          rw [l.permute_eq (hrank l hl), Layout.permutedDims_of_isMatch hmatch (hrank l hl),
            h.shape]
          split <;> rfl
      | false =>
          have hflat := h.not_flattened hrank hm hl hmatch
          rw [if_neg hflat, Tensor.moved_of_not_isMatch hl hmatch, h.shape, if_neg hflat]
          exact l.permute_eq (hrank l hl)

theorem targetData_eq (hr : s.Reads d type) :
    s.targetData layouts p d (s.targetType p type) = .ok u.moved.data := by
  unfold Scope.targetData
  rw [← hlayout]
  cases hb : s.constant? d with
  | none =>
      have hdata : u.moved.data = none := by
        rw [← Option.not_isSome_iff_eq_none, Tensor.isSome_data_moved, h.data, hb]
        exact Bool.false_ne_true
      rw [hdata]
      rfl
  | some b =>
      have hdata : u.data = some (b.cast (s.targetType p type)) := by
        rw [h.data, hb]
        rfl
      have hfill : (b.cast (s.targetType p type)).length = elementCount d.extents := by
        rw [Buffer.length_cast, hr.fills b hb]
      rw [Option.mapM_some]
      cases hl : u.layout with
      | none =>
          rw [Tensor.moved_of_layout_none hl, hdata]
          rfl
      | some l =>
          cases hmatch : l.isMatch with
          | true =>
              rw [Tensor.moved_of_isMatch hl hmatch]
              dsimp only
              rw [hdata, if_pos hmatch]
              rfl
          | false =>
              have hflat := h.not_flattened hrank hm hl hmatch
              rw [Tensor.moved_of_not_isMatch hl hmatch]
              dsimp only
              rw [hdata, h.shape, if_neg hflat, if_neg (by rw [hmatch]; exact Bool.false_ne_true),
                Buffer.permute_eq _ (hrank l hl) hfill]
              rfl

/-- Moving a tensor that was read gives its converted form. -/
theorem targetNode_eq (hr : s.Reads d type) :
    s.targetNode layouts p d type = .ok u.moved.node := by
  have htype : u.moved.elementType = some (s.targetType p type) := by
    rw [Tensor.moved_elementType, h.elementType]
  have hname : u.moved.name = d.name := by rw [Tensor.moved_name, h.name]
  rw [Scope.targetNode, h.targetShape_eq hrank hm hlayout, h.targetData_eq hrank hm hlayout hr,
    Tensor.node, Tensor.nodeWith, htype, hname]
  rfl

end AsDeclared

/-- The moved form of what was read. -/
theorem Intake.targetNode_eq (h : Intake s layouts g) (hclash : ¬g.Clash)
    (hstrict : s.strict = true) (hstorable : s.subgraph.Storable) (hs : s.Distinct)
    (hnames : s.Unreserved) (ht : t ∈ g.tensors) (hd : s.subgraph.tensors[p]? = some d)
    (hname : d.name = t.name) :
    ∃ type, d.elementType.converted? = some type ∧
      s.targetNode layouts p d type = .ok t.bare.moved.node := by
  obtain ⟨type, hr, hread⟩ := h.asDeclared hs hnames ht hd hname
  refine ⟨type, hr.converted, hread.targetNode_eq (fun l hl => ?_) (fun l hl => ?_) ?_ hr⟩
  · rw [d.length_extents]
    exact h.taken.ranked t.bare (List.mem_map_of_mem ht) p d l hread.sourceIndex hd hl
  · exact movable_of_not_clash hclash t ht l hl
  · rw [Tensor.bare_layout]
    exact h.layout_eq hstrict hs hstorable ht hd hname

/-! ## Written tensors -/

/-- Every tensor of a written graph is the converted form of one that the graph
holds. -/
theorem exists_of_mem_tensors_targetOf {k : Graph} {name : String} {order : List OpId}
    {node : Target.TensorNode} (h : node ∈ (k.targetOf name order).tensors) :
    ∃ u ∈ k.tensors, u.node = node := by
  have hmentioned : ∀ r, node ∈ inRole r ((k.mentioned order).map fun e =>
      (k.role e.1 e.2.node, e.2.node)) → ∃ u ∈ k.tensors, u.node = node := by
    intro r hr
    obtain ⟨e, he, heq⟩ := List.mem_map.mp (mem_inRole.mp hr)
    obtain ⟨id, -, hid⟩ := List.mem_filterMap.mp he
    exact ⟨e.2, List.mem_of_getElem? (mem_of_located? hid).2, congrArg Prod.snd heq⟩
  simp only [Target.Graph.tensors, List.mem_append] at h
  rcases h with ((h | h) | h) | h
  · exact hmentioned _ h
  · exact hmentioned _ h
  · obtain ⟨e, he, rfl⟩ := List.mem_map.mp h
    obtain ⟨id, -, hid⟩ := List.mem_filterMap.mp he
    exact ⟨e.2, List.mem_of_getElem? (mem_of_located? hid).2, rfl⟩
  · exact hmentioned _ h

/-- A written tensor without a reserved name was read. -/
theorem Intake.exists_of_mem_tensors (h : Intake s layouts g) (hnames : s.Unreserved)
    (hclash : ¬g.Clash) {name : String} {node : Target.TensorNode}
    (hnode : node ∈ (g.loweredGraph name).tensors) (hname : ¬Reserved node.name) :
    ∃ t ∈ g.tensors, t.name = node.name ∧ t.bare.moved.node = node := by
  obtain ⟨u, hu, rfl⟩ := exists_of_mem_tensors_targetOf hnode
  obtain ⟨t, ht, hbare⟩ | ⟨role, x, l, -, hbare, -⟩ :=
    (h.populated (h.vacant hnames) hclash).cases hu
  · refine ⟨t, ht, ?_, by rw [← hbare]; rfl⟩
    rw [← t.bare_name, ← Tensor.moved_name, ← hbare]
    rfl
  · refine absurd ?_ hname
    change Reserved u.bare.name
    rw [hbare]
    exact reserved_synthesizedName _ _

end Graph

namespace Conversion

open Relayout.Graph

/-- Where names are distinct and not reserved, a strict conversion writes every
source tensor in its target form. -/
theorem convertModel_targetNode {m : Source.Model} {o : Options} {model : Target.Model}
    {sub : Source.Subgraph} (h : (convertModel m o).outcome = .ok model)
    (hsub : m.subgraphs = [sub]) (hstrict : o.strictRegistry = true) (hstorable : sub.Storable)
    (hs : (scopeOf m sub o).Distinct) (hnames : (scopeOf m sub o).Unreserved) {p : Nat}
    {d : Source.TensorDecl} (hd : sub.tensors[p]? = some d) {node : Target.TensorNode}
    (hnode : node ∈ model.graph.tensors) (hname : node.name = d.name) :
    ∃ type, d.elementType.converted? = some type ∧
      (scopeOf m sub o).targetNode o.explicitLayouts p d type = .ok node := by
  obtain ⟨sub', g, g', hsub', hg, hclash, hrun⟩ := convertModel_eq_ok h
  rw [hsub] at hsub'
  cases hsub'
  have hvacant := hg.intake.vacant hnames
  have heq := ((hg.intake.convert_eq_ok_iff hvacant hclash _).mp ⟨g', hrun⟩).2.2.2.2
  rw [heq] at hnode
  have hunreserved : ¬Reserved node.name := hname ▸ hnames d (List.mem_of_getElem? hd)
  obtain ⟨t, ht, hn, rfl⟩ := hg.intake.exists_of_mem_tensors hnames hclash hnode hunreserved
  exact hg.intake.targetNode_eq hclash hstrict hstorable hs hnames ht hd (hname.symm.trans hn.symm)

/-- Two convolutions that share their weights, and reshapes between them: two
read what the first convolution writes, a third writes what the second one
reads.  One shape operand has rank two. -/
def sharedSubgraph : Source.Subgraph where
  name := some "net"
  tensors := [⟨"x", [1, 2, 2, 2], .float32, 0, none⟩, ⟨"w", [2, 1, 1, 2], .float32, 1, none⟩,
    ⟨"y", [1, 2, 2, 2], .float32, 0, none⟩, ⟨"s", [1, 2], .int32, 2, none⟩,
    ⟨"z", [4, 2], .float32, 0, none⟩, ⟨"f", [4, 2], .float32, 0, none⟩,
    ⟨"r", [4], .int64, 3, none⟩, ⟨"u", [1, 2, 2, 2], .float32, 0, none⟩,
    ⟨"v", [1, 2, 2, 2], .float32, 0, none⟩]
  operators := [⟨0, [0, 1], [2], .conv2d ⟨.same, 1, 1, 1, 1, .none⟩⟩, ⟨1, [2, 3], [4], .none⟩,
    ⟨1, [2, 3], [5], .none⟩, ⟨1, [4, 6], [7], .none⟩,
    ⟨0, [7, 1], [8], .conv2d ⟨.same, 1, 1, 1, 1, .none⟩⟩]
  inputs := [0]
  outputs := [8, 5]

def sharedModel : Source.Model where
  version := 3
  description := none
  operatorCodes := [.conv2d, .reshape]
  buffers := [[], [0, 0, 128, 63, 0, 0, 0, 64, 0, 0, 64, 64, 0, 0, 128, 64],
    [4, 0, 0, 0, 2, 0, 0, 0],
    [1, 0, 0, 0, 0, 0, 0, 0, 2, 0, 0, 0, 0, 0, 0, 0, 2, 0, 0, 0, 0, 0, 0, 0,
      2, 0, 0, 0, 0, 0, 0, 0]]
  subgraphs := [sharedSubgraph]

/-- The layout of what the third reshape writes has to be known up front. -/
def sharedOptions : Options where
  explicitLayouts := .insert .empty "u" ⟨"NHWC", "NCHW"⟩
  strictRegistry := true
  opsetVersion := 13
  irVersion := 7
  producerName := "t2o"
  producerVersion := "0.1.0"

theorem sharedSubgraph_storable : sharedSubgraph.Storable where
  tensors := by decide
  newShapes := by
    have hnone : ∀ decl ∈ sharedSubgraph.operators, ∀ newShape,
        decl.options ≠ .reshape newShape := by
      simp [sharedSubgraph]
    exact fun decl hdecl newShape h => absurd h (hnone decl hdecl newShape)

theorem sharedModel_distinct : (scopeOf sharedModel sharedSubgraph sharedOptions).Distinct := by
  unfold Scope.Distinct
  decide

theorem sharedModel_unreserved :
    (scopeOf sharedModel sharedSubgraph sharedOptions).Unreserved := by
  unfold Scope.Unreserved
  decide

theorem convertModel_targetNode_shared :
    ∃ model node, (convertModel sharedModel sharedOptions).outcome = .ok model ∧
      node ∈ model.graph.tensors ∧ node.name = "w" ∧
      ∃ type, Source.ElementType.float32.converted? = some type ∧
        (scopeOf sharedModel sharedSubgraph sharedOptions).targetNode
            sharedOptions.explicitLayouts 1 ⟨"w", [2, 1, 1, 2], .float32, 1, none⟩ type =
          .ok node := by
  have hwritten : (match (convertModel sharedModel sharedOptions).outcome with
      | .ok model => model.graph.tensors.any fun node => node.name == "w"
      | .error _ => false) = true := by
    decide +kernel
  split at hwritten
  · rename_i model hmodel
    obtain ⟨node, hnode, hname⟩ := List.any_eq_true.mp hwritten
    obtain ⟨type, htype, heq⟩ := convertModel_targetNode hmodel rfl rfl sharedSubgraph_storable
      sharedModel_distinct sharedModel_unreserved (p := 1) rfl hnode (eq_of_beq hname)
    exact ⟨model, node, hmodel, hnode, eq_of_beq hname, type, htype, heq⟩
  · cases hwritten

end Conversion

end Relayout
