/-
# The shapes that reshapes carry

A shape operand may be read by many reshapes, be an operand of something else and
have a layout besides.  It is cast and flattened once more by each reader, and
moved in the end; still every reshape is emitted with the values that the source
asked for.  Two arguments carry this.  A constant that is read as a shape has
rank one at most by the time it is moved, so that its layout moves nothing.  And
the vector of a declared shape is found again by the name of the output alone,
but a graph that passes the checks has one writer for each output, so the one
that is found is that of the operator itself.
-/
import Relayout.Proofs.Evaluation.Calls
import Relayout.Proofs.Graph.Written
import Relayout.Proofs.Identity

namespace Relayout

/-! ## Values -/

/-- The entries of a declared shape keep their values in 64 bits. -/
theorem Buffer.toInts?_newShape (newShape : List Int32) :
    (ofInts .int64 (newShape.map Int32.toInt)).toInts? = some (newShape.map Int32.toInt) := by
  refine toInts?_ofInts_of_inRange rfl ?_
  intro i hi
  obtain ⟨n, -, rfl⟩ := List.mem_map.mp hi
  exact ElementType.inRange_int64 (ElementType.inRange_read (t := .int32) rfl n.toBitVec)

/-- A layout of one axis, or none, moves nothing. -/
theorem Layout.isMatch_of_rank_le_one {l : Layout} (h : l.rank ≤ 1) : l.isMatch = true := by
  rw [isMatch_iff]
  have hlength : l.target.length ≤ 1 := h
  match htarget : l.target, hlength with
  | [], _ =>
      have := l.relabels
      rw [htarget] at this
      exact List.nil_perm.mp this
  | [label], _ =>
      have := l.relabels
      rw [htarget] at this
      exact (List.singleton_perm.mp this).symm

namespace Scope

/-- The node of a reshape has two inputs, of which the second one is the shape
that the source asks for. -/
inductive CarriesShape (s : Scope) (graph : Target.Graph) (decl : Source.OperatorDecl)
    (node : Target.Node) : Prop where
  /-- A shape operand has 64-bit elements.  A constant is a scalar or a vector,
  and if it holds integers it has the values of the source. -/
  | operand {input : String} {p : Nat} {d : Source.TensorDecl} {t : Target.TensorNode}
      (hoperand : Source.operandAt? decl.inputs 1 = some p)
      (hd : s.subgraph.tensors[p]? = some d) (hinputs : node.inputs = [input, d.name])
      (ht : graph.tensor? d.name = some t) (htype : t.elementType = .int64)
      (hconstant : ∀ b, s.constant? d = some b →
        t.dims = (if d.shape.length ≤ 1 then d.shape else [.ofNat (elementCount d.extents)]) ∧
        ∃ data, t.data = some data ∧ (b.elementType.isFloat = false →
          ∃ values, b.toInts? = some values ∧ data.toInts? = some values))
  /-- Without one, it is a vector made for the declared shape. -/
  | vector {input name : String} {newShape : List Int32} {t : Target.TensorNode}
      (hoperand : Source.operandAt? decl.inputs 1 = none)
      (hoptions : decl.options = .reshape newShape) (hinputs : node.inputs = [input, name])
      (ht : graph.tensor? name = some t) (hinitializer : t ∈ graph.initializers)
      (htype : t.elementType = .int64) (hdims : t.dims = [.ofNat newShape.length])
      (hdata : ∃ data, t.data = some data ∧ data.toInts? = some (newShape.map Int32.toInt))

end Scope

namespace Graph

variable {s : Scope} {layouts : SortedMap ExplicitLayout} {g k : Graph} {t u : Tensor}
  {i p : Nat} {id : TensorId} {order : List OpId} {title name : String} {d : Source.TensorDecl}
  {decl : Source.OperatorDecl} {l : Layout} {type : ElementType}

/-! ## Declared operands -/

namespace AsDeclared

variable (h : AsDeclared s p d type u)
  (hrank : ∀ l, u.layout = some l → d.extents.length = l.rank) (hm : u.Movable)
  (hshape : s.IsShape p) (hconstant : (s.constant? d).isSome = true)

include h hrank hm hshape hconstant

/-- The layout of a constant that is read as a shape moves nothing. -/
theorem isMatch_of_isShape (hl : u.layout = some l) : l.isMatch = true := by
  by_cases hlong : 1 < d.shape.length
  · by_contra hmatch
    exact h.not_flattened hrank hm hl (by simpa using hmatch) ⟨hshape, hconstant, hlong⟩
  · refine Layout.isMatch_of_rank_le_one ?_
    have := hrank l hl
    rw [d.length_extents] at this
    omega

/-- Such a constant is not moved. -/
theorem moved_of_isShape : u.moved.shape = u.shape ∧ u.moved.data = u.data := by
  cases hl : u.layout with
  | none =>
      rw [Tensor.moved_of_layout_none hl]
      exact ⟨rfl, rfl⟩
  | some l =>
      rw [Tensor.moved_of_isMatch hl (h.isMatch_of_isShape hrank hm hshape hconstant hl)]
      exact ⟨rfl, rfl⟩

end AsDeclared

/-- What a source asks of a shape operand, of the tensor that is written. -/
theorem Passes.carries_operand (h : Passes s layouts g title) (hs : s.Distinct)
    (ht : t ∈ g.tensors) (hd : s.subgraph.tensors[p]? = some d) (hname : d.name = t.name)
    (hshape : s.IsShape p) (hbare : u.bare = t.bare.moved) :
    u.node.elementType = .int64 ∧ ∀ b, s.constant? d = some b →
      u.node.dims = (if d.shape.length ≤ 1 then d.shape else [.ofNat (elementCount d.extents)]) ∧
      ∃ data, u.node.data = some data ∧ (b.elementType.isFloat = false →
        ∃ values, b.toInts? = some values ∧ data.toInts? = some values) := by
  obtain ⟨type, hr, hread⟩ := h.intake.asDeclared hs h.unreserved ht hd hname
  have htype : s.targetType p type = .int64 := if_pos hshape
  constructor
  · change u.bare.elementType.getD .float32 = .int64
    rw [hbare, Tensor.moved_elementType, hread.elementType, htype]
    rfl
  · intro b hb
    have hconstant : (s.constant? d).isSome = true := by rw [hb]; rfl
    obtain ⟨hsame, hdata⟩ := hread.moved_of_isShape (fun l hl => by
        rw [d.length_extents]
        exact h.intake.taken.ranked t.bare (List.mem_map_of_mem ht) p d l hread.sourceIndex hd hl)
      (movable_of_not_clash h.clash t ht) hshape hconstant
    constructor
    · change u.bare.shape.map Int64.ofNat = _
      rw [hbare, hsame, hread.shape]
      by_cases hlong : d.shape.length ≤ 1
      · rw [if_neg fun hflat => absurd hflat.2.2 (by omega), if_pos hlong]
        exact Source.Subgraph.map_ofNat_extents hr.nonneg
      · rw [if_pos ⟨hshape, hconstant, by omega⟩, if_neg hlong]
        rfl
    · refine ⟨b.cast .int64, ?_, Buffer.toInts?_cast_int64⟩
      change u.bare.data = _
      rw [hbare, hdata, hread.data, hb, htype]
      rfl

/-! ## Vectors -/

/-- A tensor with data that is mentioned is an initializer. -/
theorem mem_initializers_of_mentioned (h : (id, u) ∈ k.mentioned order)
    (hdata : u.data.isSome = true) : u.node ∈ (k.targetOf title order).initializers :=
  mem_inRole.mpr (List.mem_map.mpr
    ⟨(id, u), h, Prod.ext (role_eq_initializer.mpr hdata) rfl⟩)

/-- The vector that has the name of an output was made for the operator that
writes this output. -/
theorem Passes.vector_eq (h : Passes s layouts g title) {c : Call}
    (hdecl : s.subgraph.operators[i]? = some decl) (hcall : s.call? decl = some c)
    (hc : s.calls[i]? = some c) (ht : t ∈ g.tensors)
    (hname : t.name = synthesizedName "Vector" c.output) :
    ∃ newShape, decl.options = .reshape newShape ∧
      t.bare = constant (synthesizedName "Vector" c.output) [newShape.length]
        (.ofInts .int64 (newShape.map Int32.toInt)) t.id := by
  obtain ⟨decl', hdecl', newShape, owner, hoptions, howner, hbare⟩ :=
    h.intake.owned_vector h.unreserved ht (hname ▸ reserved_synthesizedName _ _)
  obtain rfl : owner = c.output := synthesizedName_injective <|
    calc synthesizedName "Vector" owner = t.bare.name := by rw [hbare]; rfl
      _ = synthesizedName "Vector" c.output := hname
  obtain ⟨j, hj⟩ := List.getElem?_of_mem hdecl'
  obtain ⟨c', -, hcall', hc', -⟩ := h.intake.call_at hj
  have hout : c'.output = c.output :=
    Option.some.inj ((Scope.nameIn?_of_call? hcall').symm.trans howner)
  -- both write the same output, so they are one operator
  obtain rfl := h.calls_once hc' hc hout
  obtain rfl := Option.some.inj (hj.symm.trans hdecl)
  exact ⟨newShape, hoptions, hbare⟩

/-- The node of a reshape carries the shape that the source asks for. -/
theorem Passes.carriesShape (h : Passes s layouts g title) (hs : s.Distinct) {a b : String}
    {shape : Option String} (hre : Reshaping s layouts g decl i a shape b) :
    s.CarriesShape (g.loweredGraph title) decl (reshapeNode (s.tag layouts) a shape b) := by
  obtain ⟨hopcode, -, hshape, -⟩ := Scope.call?_eq_reshape.mp hre.call
  have hsecond : ∀ {name}, name = shape.getD (synthesizedName "Vector" b) → name ∈
      (reshapeNode (s.tag layouts) a shape b).inputs ∧
        name ∈ (Call.reshape a shape b).inputs := by
    rintro _ rfl
    exact ⟨List.mem_cons_of_mem _ List.mem_cons_self, List.mem_cons_of_mem _ List.mem_cons_self⟩
  cases shape with
  | some v =>
      obtain ⟨p, hp, hname⟩ := Scope.exists_operand (Scope.optionalIn?_eq_some hshape)
      obtain ⟨d, hd, rfl⟩ := Option.map_eq_some_iff.mp hname
      obtain ⟨hnode, hcalled⟩ := hsecond rfl
      obtain ⟨u, hu, huname, hfound⟩ := h.tensor?_of_node hre.node (Or.inl hnode)
      obtain ⟨t, ht, htname⟩ := Scope.WellFormed.tensor_of_input h.intake hre.calls hcalled
      obtain ⟨htype, hconstant⟩ := h.carries_operand hs ht hd htname.symm
        ⟨decl, List.mem_of_getElem? hre.declared, hopcode, hp⟩
        (h.intake.bare_eq_moved h.unreserved h.clash hu ht (huname.trans htname.symm))
      exact .operand hp hd rfl hfound htype hconstant
  | none =>
      obtain ⟨hnode, hcalled⟩ := hsecond rfl
      obtain ⟨t, ht, htname⟩ := Scope.WellFormed.tensor_of_input h.intake hre.calls hcalled
      obtain ⟨id, u, he, hu, huname, hfound⟩ :=
        h.tensor?_of_mentions (Or.inr ⟨_, hre.node, Or.inl hnode⟩)
      obtain ⟨newShape, hoptions, hvector⟩ :=
        h.vector_eq hre.declared hre.call hre.calls ht htname
      have hbare := h.intake.bare_eq_moved h.unreserved h.clash hu ht (huname.trans htname.symm)
      rw [hvector, Tensor.moved_of_layout_none rfl] at hbare
      have hdata : u.data = some (.ofInts .int64 (newShape.map Int32.toInt)) := by
        rw [← u.bare_data, hbare]
        rfl
      refine .vector (Scope.optionalIn?_eq_none hshape) hoptions rfl hfound
        (mem_initializers_of_mentioned he (by rw [hdata]; rfl)) ?_ ?_
        ⟨_, hdata, Buffer.toInts?_newShape newShape⟩
      · change u.bare.elementType.getD .float32 = .int64
        rw [hbare]
        rfl
      · change u.bare.shape.map Int64.ofNat = _
        rw [hbare]
        rfl

end Graph

namespace Conversion

open Relayout.Graph

/-- Every reshape of the source has one node, in order, and this node carries the
shape that the source asks for, however many operators share it. -/
theorem convertModel_carriesShape {m : Source.Model} {o : Options} {model : Target.Model}
    {sub : Source.Subgraph} (h : (convertModel m o).outcome = .ok model)
    (hsub : m.subgraphs = [sub]) (hs : (scopeOf m sub o).Distinct)
    (hnames : (scopeOf m sub o).Unreserved) :
    List.Forall₂ ((scopeOf m sub o).CarriesShape model.graph) (scopeOf m sub o).reshapes
      (model.graph.nodesOf "Reshape") := by
  obtain ⟨g, title, hpasses, hgraph⟩ := exists_passes h hsub hnames
  rw [hgraph, Target.Graph.nodesOf, hpasses.nodes_eq]
  refine hpasses.intake.forall₂_reshapes.imp ?_
  rintro decl node ⟨i, x, shape, y, hre, rfl⟩
  exact hpasses.carriesShape hs hre

/-- Three reshapes in a row.  The first and the last one share an operand of
rank two, the one between them declares its shape, and what it reads has a
layout. -/
def carriedSubgraph : Source.Subgraph where
  name := none
  tensors := [⟨"x", [8], .float32, 0, none⟩, ⟨"s", [1, 2], .int32, 1, none⟩,
    ⟨"y", [4, 2], .float32, 0, none⟩, ⟨"z", [8], .float32, 0, none⟩,
    ⟨"w", [4, 2], .float32, 0, none⟩]
  operators := [⟨0, [0, 1], [2], .none⟩, ⟨0, [2], [3], .reshape [8]⟩, ⟨0, [3, 1], [4], .none⟩]
  inputs := [0]
  outputs := [4]

def carriedModel : Source.Model :=
  reshapeModel [[], [4, 0, 0, 0, 2, 0, 0, 0]] carriedSubgraph

def carriedOptions : Options :=
  { sharedOptions with explicitLayouts := .insert .empty "y" ⟨"AB", "BA"⟩ }

theorem convertModel_carriesShape_carried :
    ∃ model, (convertModel carriedModel carriedOptions).outcome = .ok model ∧
      (scopeOf carriedModel carriedSubgraph carriedOptions).reshapes.length = 3 ∧
      List.Forall₂ ((scopeOf carriedModel carriedSubgraph carriedOptions).CarriesShape model.graph)
        (scopeOf carriedModel carriedSubgraph carriedOptions).reshapes
        (model.graph.nodesOf "Reshape") ∧
      model.graph.initializers.map (fun t => (t.name, t.dims)) =
        [("s", [2]), ("TFLITE2ONNX_Vector_z", [1])] := by
  obtain ⟨model, hmodel, hseen⟩ := exists_of_outcome carriedModel carriedOptions
    (fun model => decide (model.graph.initializers.map (fun t => (t.name, t.dims)) =
      [("s", [2]), ("TFLITE2ONNX_Vector_z", [1])])) (by decide +kernel)
  refine ⟨model, hmodel, by decide, ?_, of_decide_eq_true hseen⟩
  refine convertModel_carriesShape hmodel rfl ?_ ?_
  · unfold Scope.Distinct
    decide
  · unfold Scope.Unreserved
    decide

end Conversion

end Relayout
