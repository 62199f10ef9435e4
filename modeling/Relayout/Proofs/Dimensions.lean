/-
# Dimensions around transposes and reshapes

A layout is applied in one direction to the tensor, in the other to its other
form, and the transpose between the two says a third time which axis goes where.
The three agree: what a transpose writes has the dimensions of what it reads, in
the order that the transpose names.  So a reshape sees the dimensions that the
source declares, whatever the layouts of its operands.
-/
import Relayout.Proofs.Evaluation.Calls
import Relayout.Proofs.Graph.Written
import Relayout.Proofs.Layout.Labels

namespace Relayout

namespace Target

/-- A node that transposes the first tensor into the second: it names every axis
of the first one once, and the second one has the dimensions in this order. -/
structure Graph.Permutes (graph : Graph) (node : Node) (axes : List Nat)
    (source target : TensorNode) : Prop where
  inputs : node.inputs = [source.name]
  outputs : node.outputs = [target.name]
  perm : node.attribute? "perm" = some (.ints (axes.map Int64.ofNat))
  read : graph.tensor? source.name = some source
  written : graph.tensor? target.name = some target
  once : axes.Perm (List.range source.dims.length)
  dims : target.dims.map some = axes.map fun axis => source.dims[axis]?
  elementType : target.elementType = source.elementType

end Target

namespace Scope

/-- The node of a reshape reads and writes tensors that have the dimensions
declared for its operands, apart from an operand that was flattened. -/
def SeesDeclared (s : Scope) (graph : Target.Graph) (decl : Source.OperatorDecl)
    (node : Target.Node) : Prop :=
  ∃ p q dx dy input output, Source.operandAt? decl.inputs 0 = some p ∧
    Source.operandAt? decl.outputs 0 = some q ∧ s.subgraph.tensors[p]? = some dx ∧
    s.subgraph.tensors[q]? = some dy ∧ node.name = dy.name ∧ node.inputs[0]? = some input ∧
    node.outputs = [output] ∧ graph.dims? output = some dy.shape ∧
    graph.dims? input =
      some (if s.Flattened p dx then [.ofNat (elementCount dx.extents)] else dx.shape)

end Scope

namespace Layout

/-- A moved shape has the entries of the shape in the order of the axes. -/
theorem map_some_permutedDims (l : Layout) {α : Type} (f : Nat → α) {dims : List Nat}
    (h : dims.length = l.rank) :
    ((permutedDims l.perm dims).map f).map some = l.perm.map fun axis => (dims.map f)[axis]? := by
  rw [permutedDims, List.map_map, List.map_map]
  refine List.map_congr_left fun axis haxis => ?_
  have hlt : axis < dims.length := h ▸ List.mem_range.mp (l.perm_perm_range.mem_iff.mp haxis)
  simp [hlt]

end Layout

namespace Graph

variable {s : Scope} {layouts : SortedMap ExplicitLayout} {g : Graph} {t u v x y : Tensor}
  {n i p : Nat} {l : Layout} {title : String} {node : Target.Node} {d : Source.TensorDecl}
  {decl : Source.OperatorDecl} {shape : Option String} {graph : Target.Graph}

/-! ## Transposes -/

/-- A transpose between two tensors, of which one is the other one moved. -/
theorem permutes_turnNode {name : String} (hdims : t.rank = l.rank)
    (hu : graph.tensor? t.name = some t.node) (hv : graph.tensor? v.name = some v.node)
    (hshape : v.shape = permutedDims l.perm t.shape) (htype : v.elementType = t.elementType) :
    graph.Permutes (turnNode name l.perm t.name v.name) l.perm t.node v.node where
  inputs := rfl
  outputs := rfl
  perm := rfl
  read := hu
  written := hv
  once := by
    change l.perm.Perm (List.range (t.shape.map Int64.ofNat).length)
    rw [List.length_map, show t.shape.length = l.rank from hdims]
    exact l.perm_perm_range
  dims := by
    change (v.shape.map Int64.ofNat).map some =
      l.perm.map fun axis => (t.shape.map Int64.ofNat)[axis]?
    rw [hshape]
    exact l.map_some_permutedDims _ hdims
  elementType := congrArg (fun type : Option ElementType => type.getD .float32) htype

/-- A tensor with a layout, and its other form. -/
theorem InSourceOrder.moved (hv : InSourceOrder t v) (hu : u.bare = t.bare.moved)
    (hl : t.layout = some l) (hrank : t.rank = l.rank) :
    u.shape = permutedDims l.perm v.shape ∧ v.shape = permutedDims l.inverse.perm u.shape ∧
      u.elementType = v.elementType := by
  have hshape : u.shape = permutedDims l.perm t.shape := by
    rw [← u.bare_shape, hu, Tensor.shape_moved (t := t.bare) hl hrank, t.bare_shape]
  refine ⟨by rw [hshape, hv.shape], ?_, ?_⟩
  · rw [hshape, hv.shape, l.permutedDims_inverse hrank]
  · rw [← u.bare_elementType, hu, Tensor.moved_elementType, t.bare_elementType, hv.elementType]

section Written

variable (h : Passes s layouts g title)

include h

/-- Both ends of a transpose are written. -/
theorem Passes.exists_ends {name a b : String} {perm : List Nat}
    (hnode : turnNode name perm a b ∈ g.lowered s.calls (s.tag layouts)) :
    ∃ u ∈ g.adapted.tensors, u.name = a ∧ (g.loweredGraph title).tensor? a = some u.node ∧
      ∃ v ∈ g.adapted.tensors, v.name = b ∧ (g.loweredGraph title).tensor? b = some v.node := by
  obtain ⟨u, hu, hname, hfound⟩ := h.tensor?_of_node hnode (Or.inl (List.mem_singleton_self a))
  obtain ⟨v, hv, hname', hfound'⟩ := h.tensor?_of_node hnode (Or.inr (List.mem_singleton_self b))
  exact ⟨u, hu, hname, hfound, v, hv, hname', hfound'⟩

/-- Every transpose of a written graph permutes what it reads. -/
theorem Passes.permutes (hnode : node ∈ g.lowered s.calls (s.tag layouts))
    (htype : node.opType = "Transpose") :
    ∃ axes source target, (g.loweredGraph title).Permutes node axes source target := by
  cases h.intake.turnsOperand hnode htype with
  | @before n x y l hr hl hturn =>
      rw [hturn] at hnode ⊢
      have hrank := hr.rank_left h.clash hl
      obtain ⟨u, hu, hname, hfound, v, hv, hname', hfound'⟩ := h.exists_ends hnode
      have hmoved := h.intake.bare_eq_moved h.unreserved h.clash hu hr.mem_left hname
      have hsource : InSourceOrder x v :=
        .of_spliced (h.intake.bare_eq_turned h.unreserved h.clash hv hr.mem_left hname' hl) hl hrank
      obtain ⟨hshape, hback, helement⟩ := hsource.moved hmoved hl hrank
      rw [← hname] at hfound
      rw [← hname'] at hfound'
      have hrank' : u.rank = l.inverse.rank := by
        rw [Tensor.rank, hshape, Layout.length_permutedDims, l.length_perm, l.rank_inverse]
      refine ⟨l.inverse.perm, u.node, v.node, ?_⟩
      rw [← hname', ← hname]
      exact permutes_turnNode hrank' hfound hfound' hback helement.symm
  | @behind n x y l hr hl hturn =>
      rw [hturn] at hnode ⊢
      have hrank := hr.rank_right h.clash hl
      obtain ⟨v, hv, hname', hfound', u, hu, hname, hfound⟩ := h.exists_ends hnode
      have hmoved := h.intake.bare_eq_moved h.unreserved h.clash hu hr.mem_right hname
      have hsource : InSourceOrder y v :=
        .of_spliced (h.intake.bare_eq_written h.unreserved h.clash hv hr.mem_right hname' hl) hl
          hrank
      obtain ⟨hshape, -, helement⟩ := hsource.moved hmoved hl hrank
      rw [← hname] at hfound
      rw [← hname'] at hfound'
      have hrank' : v.rank = l.rank := by rw [Tensor.rank, hsource.shape, ← hrank, Tensor.rank]
      refine ⟨l.perm, v.node, u.node, ?_⟩
      rw [← hname', ← hname]
      exact permutes_turnNode hrank' hfound' hfound hshape helement

end Written

/-! ## Reshapes -/

/-- The node of a reshape sees the declared dimensions.  A result is never
flattened, since no constant is written. -/
theorem Passes.seesDeclared (h : Passes s layouts g title) (hs : s.Distinct) {a b : String}
    (hre : Reshaping s layouts g decl i a shape b) :
    s.SeesDeclared (g.loweredGraph title) decl (reshapeNode (s.tag layouts) a shape b) := by
  obtain ⟨x, y, u, v, hends⟩ := h.exists_atEnds hre
  obtain ⟨p, hp, hpx⟩ := Scope.exists_operand (Scope.call?_eq_reshape.mp hre.call).2.1
  obtain ⟨q, hq, hqy⟩ := Scope.exists_output hre.call
  obtain ⟨dx, hdx, hxname⟩ := Option.map_eq_some_iff.mp hpx
  obtain ⟨dy, hdy, hyname⟩ := Option.map_eq_some_iff.mp hqy
  have hdxname : dx.name = x.name := hxname.trans hends.operandName.symm
  have hdyname : dy.name = y.name := hyname.trans hends.resultName.symm
  have hin := h.intake.dims_declared hs h.unreserved hends.operand hdx hdxname
  have hout := h.intake.dims_declared hs h.unreserved hends.result hdy hdyname
  have hvariable : ¬s.Flattened q dy := fun hflat => by
    have hdata := h.data_of_output hre.calls hends.result hends.resultName
    have := h.intake.isSome_data hs h.unreserved hends.result hdy hdyname
    rw [hdata, hflat.2.1] at this
    cases this
  rw [if_neg hvariable] at hout
  refine ⟨p, q, dx, dy, u.name, v.name, hp, hq, hdx, hdy, hyname.symm,
    congrArg some hends.readAs.symm, congrArg (fun name => [name]) hends.writtenAs.symm, ?_, ?_⟩
  · rw [Target.Graph.dims?, hends.written, Option.map_some, ← hout, ← hends.writtenOrder.shape]
    rfl
  · rw [Target.Graph.dims?, hends.read, Option.map_some, ← hin, ← hends.readOrder.shape]
    rfl

end Graph

namespace Conversion

open Relayout.Graph

/-- Around layouts, the dimensions of a converted graph agree, whether or not the
registry is strict.  Every transpose reads one tensor and writes one of the same
element type, whose dimensions are those of the first in the order of its axes.
Every reshape of the source has one node, in order; it writes the dimensions that
the source declares for its result, and reads those declared for its operand,
unless this is a constant that was flattened into a shape. -/
theorem convertModel_dimensions {m : Source.Model} {o : Options} {model : Target.Model}
    {sub : Source.Subgraph} (h : (convertModel m o).outcome = .ok model)
    (hsub : m.subgraphs = [sub]) (hs : (scopeOf m sub o).Distinct)
    (hnames : (scopeOf m sub o).Unreserved) :
    (∀ node ∈ model.graph.nodesOf "Transpose", ∃ axes source target,
        model.graph.Permutes node axes source target) ∧
      List.Forall₂ ((scopeOf m sub o).SeesDeclared model.graph) (scopeOf m sub o).reshapes
        (model.graph.nodesOf "Reshape") := by
  obtain ⟨g, title, hpasses, hgraph⟩ := exists_passes h hsub hnames
  rw [hgraph, Target.Graph.nodesOf, Target.Graph.nodesOf, hpasses.nodes_eq]
  constructor
  · intro node hnode
    obtain ⟨hmem, htype⟩ := List.mem_filter.mp hnode
    exact hpasses.permutes hmem (eq_of_beq htype)
  · refine hpasses.intake.forall₂_reshapes.imp ?_
    rintro decl node ⟨i, x, shape, y, hre, rfl⟩
    exact hpasses.seesDeclared hs hre

/-- The third reshape of the shared model reads two dimensions and writes four,
behind which a transpose brings the channels to the front. -/
theorem convertModel_dimensions_shared :
    ∃ model, (convertModel sharedModel sharedOptions).outcome = .ok model ∧
      (scopeOf sharedModel sharedSubgraph sharedOptions).reshapes.length = 3 ∧
      List.Forall₂ ((scopeOf sharedModel sharedSubgraph sharedOptions).SeesDeclared model.graph)
        (scopeOf sharedModel sharedSubgraph sharedOptions).reshapes
        (model.graph.nodesOf "Reshape") ∧
      ∃ node ∈ model.graph.nodesOf "Transpose", node.name = "TFLITE2ONNX_Transpose_u" ∧
        ∃ axes source target, model.graph.Permutes node axes source target := by
  obtain ⟨model, hmodel, hseen⟩ := exists_of_outcome sharedModel sharedOptions
    (fun model => (model.graph.nodesOf "Transpose").any fun node =>
      node.name == "TFLITE2ONNX_Transpose_u") (by decide +kernel)
  obtain ⟨node, hnode, hname⟩ := List.any_eq_true.mp hseen
  obtain ⟨htransposes, hreshapes⟩ :=
    convertModel_dimensions hmodel rfl sharedModel_distinct sharedModel_unreserved
  exact ⟨model, hmodel, by decide, hreshapes, node, hnode, eq_of_beq hname, htransposes node hnode⟩

end Conversion

end Relayout
