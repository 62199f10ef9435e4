/-
# Reshapes and transposes of a written graph

The nodes of a written graph against the operators of the source: every reshape
is emitted as one node, in order, and every transpose stands in front of a
reshape or behind one.  A tensor that such a node names is found in the graph
under that name, and is one that was read, moved, or its other form.  All of this
holds of lenient registries as well, since it only looks at what was granted.
-/
import Mathlib.Data.List.Pairwise
import Relayout.Proofs.Evaluation.Lowered

namespace Relayout

/-- A list that is put together without duplicates has each entry from one
place. -/
theorem eq_of_nodup_flatMap {α β : Type} {xs : List α} {f : α → List β}
    (h : (xs.flatMap f).Nodup) {a a' : α} (ha : a ∈ xs) (ha' : a' ∈ xs) {b : β} (hb : b ∈ f a)
    (hb' : b ∈ f a') : a = a' := by
  by_contra hne
  have : Std.Symm (Function.onFun List.Disjoint f) := ⟨fun _ _ hd _ hx hx' => hd hx' hx⟩
  exact (List.nodup_flatMap.mp h).2.forall ha ha' hne hb hb'

/-- The nodes that do one thing, in order. -/
def Target.Graph.nodesOf (graph : Target.Graph) (opType : String) : List Target.Node :=
  graph.nodes.filter fun node => node.opType == opType

/-- The dimensions of the first tensor of a name. -/
def Target.Graph.dims? (graph : Target.Graph) (name : String) : Option (List Int64) :=
  (graph.tensor? name).map Target.TensorNode.dims

/-- The reshapes of a source, in order. -/
def Scope.reshapes (s : Scope) : List Source.OperatorDecl :=
  s.subgraph.operators.filter fun decl => s.model.opcode decl = .reshape

/-- What a reshape is emitted as. -/
def reshapeNode (tag : String → Option Layout) (x : String) (shape : Option String) (y : String) :
    Target.Node where
  name := y
  opType := "Reshape"
  inputs := [readName tag x, shape.getD (synthesizedName "Vector" y)]
  outputs := [writtenName tag y]
  attributes := .ofEntries []

/-- The reshapes among the nodes of a call. -/
def Call.reshapeNodes (tag : String → Option Layout) : Call → List Target.Node
  | .conv .. => []
  | .reshape x shape y => [reshapeNode tag x shape y]

theorem opType_turnBefore {tag : String → Option Layout} {seen : List String} {x : String} :
    ∀ node ∈ turnBefore tag seen x, node.opType = "Transpose" := by
  intro node hnode
  unfold turnBefore at hnode
  split at hnode
  · split at hnode
    · cases hnode
    · rw [List.mem_singleton.mp hnode]
      rfl
  · cases hnode

theorem opType_turnAfter {tag : String → Option Layout} {y : String} :
    ∀ node ∈ turnAfter tag y, node.opType = "Transpose" := by
  intro node hnode
  unfold turnAfter at hnode
  split at hnode
  · rw [List.mem_singleton.mp hnode]
    rfl
  · cases hnode

namespace Graph

open Target (checkNodes)

variable {s : Scope} {layouts : SortedMap ExplicitLayout} {g k : Graph} {t u x y : Tensor}
  {i n : Nat} {c : Call} {o : Operator} {l : Layout} {title name : String}
  {tag : String → Option Layout} {seen : List String} {node : Target.Node}
  {decl : Source.OperatorDecl} {d : Source.TensorDecl} {p : Nat}

/-! ## Nodes -/

theorem filter_reshape_of_transposes {nodes : List Target.Node}
    (h : ∀ node ∈ nodes, node.opType = "Transpose") :
    nodes.filter (fun node => node.opType == "Reshape") = [] :=
  List.filter_eq_nil_iff.mpr fun node hnode => by simp [h node hnode]

/-- A block has the node of its call, and transposes besides. -/
theorem Stands.filter_block (h : g.Stands i c o) :
    (c.block tag seen (g.nodeOf o)).filter (fun node => node.opType == "Reshape") =
      c.reshapeNodes tag := by
  cases c with
  | conv a w b z =>
      obtain ⟨params, hkind⟩ := h.kind
      have htype : (g.nodeOf o).opType = "Conv" := congrArg Kind.name hkind
      simp [Call.block, Call.reshapeNodes, htype]
  | reshape a shape z =>
      have hname : (g.nodeOf o).name = z := h.name
      have htype : (g.nodeOf o).opType = "Reshape" := congrArg Kind.name h.kind
      have hattributes : (g.nodeOf o).attributes = .ofEntries [] :=
        congrArg (fun kind : Kind => SortedMap.ofEntries kind.attributes) h.kind
      have hnode : ({ g.nodeOf o with
          inputs := (g.nodeOf o).inputs.set 0 (readName tag a)
          outputs := (g.nodeOf o).outputs.set 0 (writtenName tag z) } : Target.Node) =
            reshapeNode tag a shape z := by
        simp only [hname, htype, hattributes, h.nodeOf.2.1, h.nodeOf.2.2]
        rfl
      rw [Call.block, List.filter_append, List.filter_append,
        filter_reshape_of_transposes opType_turnBefore,
        filter_reshape_of_transposes opType_turnAfter, hnode]
      rfl

/-- A reshape of the source, the call that it makes, and its node. -/
structure Reshaping (s : Scope) (layouts : SortedMap ExplicitLayout) (g : Graph)
    (decl : Source.OperatorDecl) (i : Nat) (x : String) (shape : Option String) (y : String) :
    Prop where
  declared : s.subgraph.operators[i]? = some decl
  call : s.call? decl = some (.reshape x shape y)
  calls : s.calls[i]? = some (.reshape x shape y)
  node : reshapeNode (s.tag layouts) x shape y ∈ g.lowered s.calls (s.tag layouts)

/-- The reshapes among the nodes are those of the source, in order. -/
theorem Intake.forall₂_reshapes (h : Intake s layouts g) :
    List.Forall₂ (fun decl node => ∃ i x shape y, Reshaping s layouts g decl i x shape y ∧
        node = reshapeNode (s.tag layouts) x shape y)
      s.reshapes
      ((g.lowered s.calls (s.tag layouts)).filter fun node => node.opType == "Reshape") := by
  have hread := h.readable
  suffices hupTo : ∀ n ≤ g.ops.length,
      List.Forall₂ (fun decl node => ∃ i x shape y, Reshaping s layouts g decl i x shape y ∧
          node = reshapeNode (s.tag layouts) x shape y)
        ((s.subgraph.operators.take n).filter fun decl => s.model.opcode decl = .reshape)
        (((List.range n).flatMap (g.loweredAt s.calls (s.tag layouts))).filter
          fun node => node.opType == "Reshape") by
    have hall := hupTo g.ops.length (Nat.le_refl _)
    rwa [List.take_of_length_le (Nat.le_of_eq h.taken.length.symm)] at hall
  intro n hn
  induction n with
  | zero => exact .nil
  | succ n ih =>
      have hlt : n < s.subgraph.operators.length := h.taken.length ▸ hn
      have hdecl := List.getElem?_eq_getElem hlt
      obtain ⟨c, -, hcall, hc, -⟩ := h.call_at hdecl
      obtain ⟨o, hstands, hblock⟩ := hread.loweredAt_eq hc
      rw [List.take_add_one, hdecl, List.filter_append, List.range_succ, List.flatMap_append,
        List.flatMap_singleton, List.filter_append]
      refine List.rel_append (ih (Nat.le_of_succ_le hn)) ?_
      rw [hblock, hstands.filter_block]
      cases c with
      | conv x w b y =>
          simp [(Scope.call?_eq_conv.mp hcall).1, Call.reshapeNodes]
      | reshape x shape y =>
          have hmem : reshapeNode (s.tag layouts) x shape y ∈
              g.loweredAt s.calls (s.tag layouts) n := by
            rw [hblock]
            have hown : reshapeNode (s.tag layouts) x shape y ∈
                (Call.reshape x shape y).reshapeNodes (s.tag layouts) := List.mem_singleton_self _
            rw [← hstands.filter_block] at hown
            exact (List.mem_filter.mp hown).1
          simp only [Option.toList_some, (Scope.call?_eq_reshape.mp hcall).1, decide_true,
            List.filter_cons_of_pos, List.filter_nil, Call.reshapeNodes]
          exact .cons ⟨n, x, shape, y, ⟨hdecl, hcall, hc, hread.mem_lowered hc hmem⟩, rfl⟩ .nil

/-- Every transpose stands in front of a reshape and turns what it reads, or
behind one and turns what it writes. -/
inductive TurnsOperand (g : Graph) (node : Target.Node) : Prop where
  | before {n : Nat} {x y : Tensor} {l : Layout} (hr : g.Reshapes n x y)
      (hl : x.layout = some l) (hnode : node = turnNode (synthesizedName "Transposed" x.name)
        l.inverse.perm x.name (synthesizedName "Transposed" x.name))
  | behind {n : Nat} {x y : Tensor} {l : Layout} (hr : g.Reshapes n x y)
      (hl : y.layout = some l) (hnode : node = turnNode (synthesizedName "Transpose" y.name)
        l.perm (synthesizedName "ToTranspose" y.name) y.name)

theorem Intake.turnsOperand (h : Intake s layouts g)
    (hnode : node ∈ g.lowered s.calls (s.tag layouts)) (htype : node.opType = "Transpose") :
    g.TurnsOperand node := by
  have hread := h.readable
  obtain ⟨i, hi, hmem⟩ := List.mem_flatMap.mp hnode
  obtain ⟨c, hc, -⟩ := hread.call_of_op (List.getElem?_eq_getElem (List.mem_range.mp hi))
  obtain ⟨o, hstands, hblock⟩ := hread.loweredAt_eq hc
  rw [hblock] at hmem
  cases c with
  | conv a w b z =>
      obtain ⟨params, hkind⟩ := hstands.kind
      have hconv : (g.nodeOf o).opType = "Conv" := congrArg Kind.name hkind
      rw [List.mem_singleton.mp hmem, hconv] at htype
      exact absurd htype (by decide)
  | reshape a shape z =>
      obtain ⟨-, -, -, x, y, -, -, -, -, rfl, -, -, rfl, hr⟩ := hread.reshapes_of_call hc
      rw [Call.block, List.append_assoc] at hmem
      rcases List.mem_append.mp hmem with hmem | hmem
      · unfold turnBefore at hmem
        rw [h.tag_eq hr.mem_left] at hmem
        split at hmem
        · rename_i l hl
          split at hmem
          · cases hmem
          · exact .before hr hl (List.mem_singleton.mp hmem)
        · cases hmem
      · rcases List.mem_cons.mp hmem with rfl | hmem
        · have hreshape : (g.nodeOf o).opType = "Reshape" := congrArg Kind.name hstands.kind
          exact absurd (hreshape.symm.trans htype) (by decide)
        · change node ∈ turnAfter (s.tag layouts) y.name at hmem
          rw [turnAfter, h.tag_eq hr.mem_right] at hmem
          split at hmem
          · rename_i l hl
            exact .behind hr hl (List.mem_singleton.mp hmem)
          · cases hmem

/-! ## Tensors -/

/-- A scope that was read, and whose lowering passes the checks of a graph. -/
structure Passes (s : Scope) (layouts : SortedMap ExplicitLayout) (g : Graph) (title : String) :
    Prop where
  intake : Intake s layouts g
  unreserved : s.Unreserved
  clash : ¬g.Clash
  checked : Target.checkGraph (g.loweredGraph title) = .ok ()

theorem Passes.vacant (h : Passes s layouts g title) : g.Vacant := h.intake.vacant h.unreserved

/-- A tensor of the adapted graph with the name of one that was read is that
one, moved. -/
theorem Intake.bare_eq_moved (h : Intake s layouts g) (hnames : s.Unreserved) (hclash : ¬g.Clash)
    (hu : u ∈ g.adapted.tensors) (ht : t ∈ g.tensors) (hname : u.name = t.name) :
    u.bare = t.bare.moved := by
  obtain ⟨i, hi⟩ := List.getElem?_of_mem ht
  obtain ⟨v, hv, hbare⟩ := (h.populated (h.vacant hnames) hclash).base hi
  have hsame : u.name = v.name := by
    rw [hname, ← v.bare_name, hbare, Tensor.moved_name, Tensor.bare_name]
  rw [(h.adapted_named hclash).eq_of_mem hu (List.mem_of_getElem? hv) hsame, hbare]

/-- The other form of what a reshape reads. -/
theorem Intake.bare_eq_turned (h : Intake s layouts g) (hnames : s.Unreserved) (hclash : ¬g.Clash)
    (hu : u ∈ g.adapted.tensors) (hx : x ∈ g.tensors)
    (hname : u.name = synthesizedName "Transposed" x.name) (hl : x.layout = some l) :
    u.bare = x.spliced "Transposed" l u.id := by
  obtain ⟨j, hj⟩ := List.getElem?_of_mem hu
  obtain ⟨-, -, hsynthesized⟩ :=
    (h.populated (h.vacant hnames) hclash).of_name hj fun t ht =>
      hname ▸ (h.clear hnames t ht _).1
  obtain ⟨-, l', hl', hbare⟩ := hsynthesized.eq_turned h.named hx hname
  obtain rfl := Option.some.inj (hl.symm.trans hl')
  exact hbare

/-- The other form of what a reshape writes. -/
theorem Intake.bare_eq_written (h : Intake s layouts g) (hnames : s.Unreserved)
    (hclash : ¬g.Clash) (hu : u ∈ g.adapted.tensors) (hy : y ∈ g.tensors)
    (hname : u.name = synthesizedName "ToTranspose" y.name) (hl : y.layout = some l) :
    u.bare = y.spliced "ToTranspose" l u.id := by
  obtain ⟨j, hj⟩ := List.getElem?_of_mem hu
  obtain ⟨-, -, hsynthesized⟩ :=
    (h.populated (h.vacant hnames) hclash).of_name hj fun t ht =>
      hname ▸ (h.clear hnames t ht _).2
  obtain ⟨-, l', hl', hbare⟩ := hsynthesized.eq_written h.named hy hname
  obtain rfl := Option.some.inj (hl.symm.trans hl')
  exact hbare

namespace Passes

variable (h : Passes s layouts g title)

include h

theorem nodes_eq : (g.loweredGraph title).nodes = g.lowered s.calls (s.tag layouts) :=
  h.intake.nodesAt_loweredOrder h.vacant h.clash

/-- A name that is mentioned is that of a written tensor. -/
theorem tensor?_of_mentions
    (hmention : Mentions (s.boundary s.subgraph.inputs) (g.lowered s.calls (s.tag layouts)) name) :
    ∃ id u, (id, u) ∈ g.adapted.mentioned g.loweredOrder ∧ u ∈ g.adapted.tensors ∧ u.name = name ∧
      (g.loweredGraph title).tensor? name = some u.node := by
  obtain ⟨id, u, he, rfl⟩ := h.intake.exists_mentioned h.vacant h.clash hmention
  have hnamed := h.intake.adapted_named h.clash
  have hu := List.mem_of_getElem? ((mem_mentioned hnamed).mp he).1
  have hmem : u.node ∈ (g.loweredGraph title).tensors := mem_tensors_of_mentioned he
  obtain ⟨found, hfound⟩ := Target.Graph.exists_find? ⟨u.node, hmem, rfl⟩
  obtain ⟨hin, hname⟩ := Target.Graph.named_of_find? hfound
  obtain ⟨v, hv, rfl⟩ := exists_of_mem_tensors_targetOf hin
  rw [hnamed.eq_of_mem hv hu hname] at hfound
  exact ⟨id, u, he, hu, rfl, hfound⟩

/-- What a node refers to is written. -/
theorem tensor?_of_node (hnode : node ∈ g.lowered s.calls (s.tag layouts))
    (hname : name ∈ node.inputs ∨ name ∈ node.outputs) :
    ∃ u ∈ g.adapted.tensors, u.name = name ∧
      (g.loweredGraph title).tensor? name = some u.node := by
  obtain ⟨-, u, -, hu, hname, hfound⟩ := h.tensor?_of_mentions (Or.inr ⟨node, hnode, hname⟩)
  exact ⟨u, hu, hname, hfound⟩

end Passes

/-! ## What was declared -/

/-- A tensor that was read has the declared dimensions, unless it was
flattened. -/
theorem Intake.dims_declared (h : Intake s layouts g) (hs : s.Distinct) (hnames : s.Unreserved)
    (ht : t ∈ g.tensors) (hd : s.subgraph.tensors[p]? = some d) (hname : d.name = t.name) :
    t.shape.map Int64.ofNat =
      if s.Flattened p d then [.ofNat (elementCount d.extents)] else d.shape := by
  obtain ⟨type, hr, hread⟩ := h.asDeclared hs hnames ht hd hname
  rw [← t.bare_shape, hread.shape]
  split
  · rfl
  · exact Source.Subgraph.map_ofNat_extents hr.nonneg

/-- A constant has data. -/
theorem Intake.isSome_data (h : Intake s layouts g) (hs : s.Distinct) (hnames : s.Unreserved)
    (ht : t ∈ g.tensors) (hd : s.subgraph.tensors[p]? = some d) (hname : d.name = t.name) :
    t.data.isSome = (s.constant? d).isSome := by
  obtain ⟨type, -, hread⟩ := h.asDeclared hs hnames ht hd hname
  rw [← t.bare_data, hread.data, Option.isSome_map]

/-! ## Source order -/

/-- The other form of a tensor has the dimensions that it was read with. -/
theorem shape_spliced (role : String) (id : TensorId) (hl : x.layout = some l)
    (hrank : x.rank = l.rank) : (x.spliced role l id).shape = x.shape := by
  change permutedDims l.inverse.perm x.moved.shape = x.shape
  rw [Tensor.shape_moved hl hrank, l.permutedDims_inverse hrank]

/-- The other form of a tensor has its element type. -/
theorem elementType_spliced (role : String) (x : Tensor) (l : Layout) (id : TensorId) :
    (x.spliced role l id).elementType = x.elementType := x.moved_elementType

/-- A tensor with the dimensions and the element type that `t` was read with. -/
structure InSourceOrder (t u : Tensor) : Prop where
  shape : u.shape = t.shape
  elementType : u.elementType = t.elementType

theorem InSourceOrder.of_spliced {role : String} {id : TensorId}
    (hbare : u.bare = x.spliced role l id) (hl : x.layout = some l) (hrank : x.rank = l.rank) :
    InSourceOrder x u where
  shape := by rw [← u.bare_shape, hbare, shape_spliced role id hl hrank]
  elementType := by rw [← u.bare_elementType, hbare, elementType_spliced]

theorem InSourceOrder.of_moved (hbare : u.bare = t.bare.moved) (hl : t.layout = none) :
    InSourceOrder t u := by
  rw [Tensor.moved_of_layout_none (show t.bare.layout = none from hl)] at hbare
  exact ⟨by rw [← u.bare_shape, hbare, t.bare_shape],
    by rw [← u.bare_elementType, hbare, t.bare_elementType]⟩

namespace Passes

variable (h : Passes s layouts g title) (hr : g.Reshapes n x y)

include h hr

/-- A reshape reads its operand in source order. -/
theorem inSourceOrder_read (hu : u ∈ g.adapted.tensors)
    (hname : u.name = readName (s.tag layouts) x.name) : InSourceOrder x u := by
  rw [readName, h.intake.tag_eq hr.mem_left] at hname
  cases hl : x.layout with
  | none =>
      rw [hl] at hname
      exact .of_moved (h.intake.bare_eq_moved h.unreserved h.clash hu hr.mem_left hname) hl
  | some l =>
      rw [hl] at hname
      exact .of_spliced (h.intake.bare_eq_turned h.unreserved h.clash hu hr.mem_left hname hl) hl
        (hr.rank_left h.clash hl)

/-- A reshape writes its result in source order. -/
theorem inSourceOrder_written (hu : u ∈ g.adapted.tensors)
    (hname : u.name = writtenName (s.tag layouts) y.name) : InSourceOrder y u := by
  rw [writtenName, h.intake.tag_eq hr.mem_right] at hname
  cases hl : y.layout with
  | none =>
      rw [hl] at hname
      exact .of_moved (h.intake.bare_eq_moved h.unreserved h.clash hu hr.mem_right hname) hl
  | some l =>
      rw [hl] at hname
      exact .of_spliced (h.intake.bare_eq_written h.unreserved h.clash hu hr.mem_right hname hl) hl
        (hr.rank_right h.clash hl)

end Passes

/-- The tensors at the two ends of a reshape: `x` and `y` as they were read, `u`
and `v` as the node of the reshape names them. -/
structure AtEnds (s : Scope) (layouts : SortedMap ExplicitLayout) (g : Graph) (title a b : String)
    (x y u v : Tensor) : Prop where
  operand : x ∈ g.tensors
  operandName : x.name = a
  result : y ∈ g.tensors
  resultName : y.name = b
  readAs : u.name = readName (s.tag layouts) a
  read : (g.loweredGraph title).tensor? u.name = some u.node
  readOrder : InSourceOrder x u
  writtenAs : v.name = writtenName (s.tag layouts) b
  written : (g.loweredGraph title).tensor? v.name = some v.node
  writtenOrder : InSourceOrder y v

/-- A reshape reads and writes in source order. -/
theorem Passes.exists_atEnds (h : Passes s layouts g title) {a b : String} {shape : Option String}
    (hre : Reshaping s layouts g decl i a shape b) :
    ∃ x y u v, AtEnds s layouts g title a b x y u v := by
  obtain ⟨-, -, -, x, y, -, -, -, -, rfl, -, -, rfl, hr⟩ :=
    h.intake.readable.reshapes_of_call hre.calls
  obtain ⟨u, hu, huname, hread⟩ := h.tensor?_of_node hre.node (Or.inl List.mem_cons_self)
  obtain ⟨v, hv, hvname, hwritten⟩ := h.tensor?_of_node hre.node (Or.inr List.mem_cons_self)
  rw [← huname] at hread
  rw [← hvname] at hwritten
  exact ⟨x, y, u, v, hr.mem_left, rfl, hr.mem_right, rfl, huname, hread,
    h.inSourceOrder_read hr hu huname, hvname, hwritten, h.inSourceOrder_written hr hv hvname⟩

/-! ## What is written once -/

/-- Some node of its block writes the output of a call. -/
theorem Readable.exists_writes (h : g.Readable s.calls tag) (hc : s.calls[i]? = some c) :
    ∃ node ∈ g.loweredAt s.calls tag i, c.output ∈ node.outputs := by
  obtain ⟨o, hstands, hblock⟩ := h.loweredAt_eq hc
  have houts := hstands.nodeOf.2.2
  rw [hblock]
  cases c with
  | conv a w b z =>
      exact ⟨g.nodeOf o, List.mem_singleton_self _, houts ▸ List.mem_singleton_self z⟩
  | reshape a shape z =>
      cases hl : tag z with
      | none =>
          refine ⟨_, List.mem_append_left _ (List.mem_append_right _ (List.mem_singleton_self _)),
            ?_⟩
          dsimp only
          rw [houts, writtenName, hl]
          exact List.mem_singleton_self z
      | some l =>
          refine ⟨turnNode (synthesizedName "Transpose" z) l.perm
            (synthesizedName "ToTranspose" z) z, List.mem_append_right _ ?_,
            List.mem_singleton_self z⟩
          rw [turnAfter, hl]
          exact List.mem_singleton_self _

namespace Passes

variable (h : Passes s layouts g title)

include h

/-- No two calls write one tensor. -/
theorem calls_once {j : Nat} {c' : Call} (hc : s.calls[i]? = some c) (hc' : s.calls[j]? = some c')
    (hout : c.output = c'.output) : i = j := by
  have hread := h.intake.readable
  obtain ⟨_, hnodes, -⟩ := Target.checkGraph_eq_ok.mp h.checked
  rw [h.nodes_eq] at hnodes
  have hnodup := (Target.fresh_of_checkNodes hnodes).1
  rw [lowered, List.flatMap_assoc] at hnodup
  have hwrites : ∀ {i : Nat} {c : Call}, s.calls[i]? = some c →
      i ∈ List.range g.ops.length ∧
        c.output ∈ (g.loweredAt s.calls (s.tag layouts) i).flatMap Target.Node.outputs := by
    intro i c hc
    obtain ⟨node, hnode, hmem⟩ := hread.exists_writes hc
    exact ⟨List.mem_range.mpr (hread.length ▸ (List.getElem?_eq_some_iff.mp hc).1),
      List.mem_flatMap.mpr ⟨node, hnode, hmem⟩⟩
  obtain ⟨hi, hmem⟩ := hwrites hc
  obtain ⟨hj, hmem'⟩ := hwrites hc'
  exact eq_of_nodup_flatMap hnodup hi hj hmem (hout ▸ hmem')

/-- What a call writes is no constant. -/
theorem data_of_output (hc : s.calls[i]? = some c) (ht : t ∈ g.tensors)
    (hname : t.name = c.output) : t.data = none := by
  have hread := h.intake.readable
  obtain ⟨_, hnodes, -⟩ := Target.checkGraph_eq_ok.mp h.checked
  rw [h.nodes_eq] at hnodes
  have hfresh := (Target.fresh_of_checkNodes hnodes).2
  obtain ⟨node, hnode, hmem⟩ := hread.exists_writes hc
  have hnode := hread.mem_lowered hc hnode
  rw [← Option.not_isSome_iff_eq_none]
  intro hdata
  refine hfresh c.output (List.mem_flatMap.mpr ⟨node, hnode, hmem⟩) ?_
  exact (h.intake.mem_startNames h.vacant h.clash).mpr
    ⟨Or.inr ⟨t, ht, hname, hdata⟩, Or.inr ⟨node, hnode, Or.inr hmem⟩⟩

end Passes

end Graph

namespace Conversion

open Relayout.Graph

/-- A conversion that goes through writes a graph that passes. -/
theorem exists_passes {m : Source.Model} {o : Options} {model : Target.Model}
    {sub : Source.Subgraph} (h : (convertModel m o).outcome = .ok model)
    (hsub : m.subgraphs = [sub]) (hnames : (scopeOf m sub o).Unreserved) :
    ∃ g title, Passes (scopeOf m sub o) o.explicitLayouts g title ∧
      model.graph = g.loweredGraph title := by
  obtain ⟨sub', g, g', hsub', hg, hclash, hrun⟩ := convertModel_eq_ok h
  obtain rfl : sub = sub' := List.singleton_inj.mp (hsub.symm.trans hsub')
  obtain ⟨-, -, -, hcheck, hgraph⟩ :=
    (hg.intake.convert_eq_ok_iff (hg.intake.vacant hnames) hclash _).mp ⟨g', hrun⟩
  exact ⟨g, _, ⟨hg.intake, hnames, hclash, hcheck⟩, hgraph⟩

end Conversion

end Relayout
