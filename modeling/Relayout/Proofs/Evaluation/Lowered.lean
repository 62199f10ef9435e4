/-
# Evaluating a lowered graph

What the simulation needs of the graph that is written: the constants and inputs
that it starts from are those of the source, moved, and every transpose finds its
operand with the dimensions that it permutes over.
-/
import Relayout.Proofs.Evaluation.Simulation
import Relayout.Proofs.Graph.Mentions
import Relayout.Proofs.TargetForm

namespace Relayout

/-! ## Looking tensors up -/

namespace Target.Graph

variable {graph : Target.Graph} {name : String} {given : String → Value} {v : Value}
  {shape : List Nat}

theorem named_of_find? {ts : List TensorNode} {node : TensorNode}
    (h : (ts.find? fun t => t.name == name) = some node) : node ∈ ts ∧ node.name = name :=
  ⟨List.mem_of_find?_eq_some h, by simpa using List.find?_some h⟩

theorem exists_find? {ts : List TensorNode} (h : ∃ node ∈ ts, node.name = name) :
    ∃ node, (ts.find? fun t => t.name == name) = some node := by
  obtain ⟨node, hnode, hname⟩ := h
  rw [← Option.isSome_iff_exists, List.find?_isSome]
  exact ⟨node, hnode, beq_iff_eq.mpr hname⟩

theorem extents?_eq (hwritten : ∃ node ∈ graph.tensors, node.name = name)
    (hdims : ∀ node ∈ graph.tensors, node.name = name → node.dims = shape.map Int64.ofNat)
    (hlt : ∀ n ∈ shape, n < 2 ^ 63) : graph.extents? name = some shape := by
  obtain ⟨node, hnode⟩ := exists_find? hwritten
  obtain ⟨hmem, hname⟩ := named_of_find? hnode
  rw [extents?, tensor?, hnode, Option.map_some, hdims node hmem hname, map_toNat_ofNat hlt]

/-- A value that is there at first is that of an initializer, or is given. -/
theorem initial_cases (h : (graph.initial given).value? name = some v) :
    (∃ node ∈ graph.initializers, node.name = name ∧ ∃ b, node.data = some b ∧ v = b.value) ∨
      (∃ node ∈ graph.inputs, node.name = name) ∧ v = given name := by
  rcases Option.or_eq_some_iff.mp h with h | ⟨-, h⟩
  · obtain ⟨node, hfound, h⟩ := Option.bind_eq_some_iff.mp h
    obtain ⟨b, hb, rfl⟩ := Option.map_eq_some_iff.mp h
    obtain ⟨hmem, hname⟩ := named_of_find? hfound
    exact Or.inl ⟨node, hmem, hname, b, hb, rfl⟩
  · split at h
    · rename_i hmem
      exact Or.inr ⟨List.mem_map.mp hmem, (Option.some.inj h).symm⟩
    · cases h

theorem isSome_initial (hdata : ∀ node ∈ graph.initializers, node.data.isSome = true)
    (hname : name ∈ Relayout.Graph.startNames graph) :
    ((graph.initial given).value? name).isSome = true := by
  rw [Relayout.Graph.startNames, List.map_append, List.mem_append] at hname
  rw [initial, Option.isSome_or, Bool.or_eq_true]
  rcases hname with hname | hname
  · obtain ⟨node, hnode⟩ := exists_find? (List.mem_map.mp hname)
    refine Or.inl ?_
    rw [hnode, Option.bind_some, Option.isSome_map]
    exact hdata node (named_of_find? hnode).1
  · refine Or.inr ?_
    rw [if_pos hname]
    rfl

end Target.Graph

namespace Scope

theorem extentsAt_lt (s : Scope) (p : Nat) : ∀ n ∈ s.extentsAt p, n < 2 ^ 63 := by
  rw [extentsAt]
  cases s.subgraph.tensors[p]? with
  | none => simp
  | some d => exact WellFormed.extents_lt d

/-! ## Constants -/

variable {s : Scope} {layouts : SortedMap ExplicitLayout} {p : Nat} {d : Source.TensorDecl}
  {type : ElementType} {b : Buffer}

/-- No reshape reads its shape from floats. -/
def IntegerShapes (s : Scope) : Prop :=
  ∀ p d type, s.IsShape p → s.subgraph.tensors[p]? = some d →
    d.elementType.converted? = some type → type.isFloat = false

/-- Constants keep their values at the type of the converted tensor. -/
theorem value_cast_targetType (hshapes : s.IntegerShapes) (hd : s.subgraph.tensors[p]? = some d)
    (hr : s.Reads d type) (hb : s.constant? d = some b) :
    (b.cast (s.targetType p type)).value = b.value := by
  have htype : b.elementType = type := constant?_elementType hr.converted hb
  unfold targetType
  split
  · rename_i hshape
    exact Buffer.value_cast_int64 (htype ▸ hshapes p d type hshape hd hr.converted)
  · rw [Buffer.cast_of_elementType htype]

theorem value_of_targetData (hshapes : s.IntegerShapes) (hd : s.subgraph.tensors[p]? = some d)
    (hr : s.Reads d type)
    (hranked : ∀ l, s.layoutAt layouts p = some l → (s.extentsAt p).length = l.rank)
    (h : s.targetData layouts p d (s.targetType p type) = .ok (some b)) :
    ∃ b₀, s.constant? d = some b₀ ∧ b.value = s.movedValue layouts p b₀.value := by
  have hlayout : s.layoutAt layouts p = s.layoutFor layouts p d := by rw [layoutAt, hd]; rfl
  have hextents : s.extentsAt p = d.extents := by rw [extentsAt, hd]; rfl
  unfold targetData at h
  cases hb : s.constant? d with
  | none =>
      rw [hb] at h
      cases h
  | some b₀ =>
      have hvalue := value_cast_targetType hshapes hd hr hb
      have hfill := hr.fills b₀ hb
      rw [hb, Option.mapM_some] at h
      rw [← hlayout] at h
      refine ⟨b₀, rfl, ?_⟩
      cases hl : s.layoutAt layouts p with
      | none =>
          rw [hl] at h
          cases h
          rw [movedValue_of_none hl, hvalue]
      | some l =>
          have hrank := hranked l hl
          rw [hl] at h
          dsimp only at h
          rw [movedValue_of_some hl, hextents]
          rw [hextents] at hrank
          split at h
          · rename_i hmatch
            cases h
            rw [hvalue, Layout.transposed_of_isMatch hmatch hrank (by simpa using hfill)]
          · rw [Buffer.permute_eq _ hrank (by rw [Buffer.length_cast, hfill])] at h
            cases h
            rw [Buffer.value_transposed, hvalue]

theorem constant?_of_targetData (h : s.targetData layouts p d type = .ok none) :
    s.constant? d = none := by
  have hsome : ∀ r : Except Violation Buffer, some <$> r ≠ .ok none := by
    intro r
    cases r <;> exact fun heq => by cases heq
  cases hb : s.constant? d with
  | none => rfl
  | some b =>
      rw [targetData, hb, Option.mapM_some] at h
      exact absurd h (hsome _)

theorem targetData_of_targetNode {node : Target.TensorNode}
    (h : s.targetNode layouts p d type = .ok node) :
    s.targetData layouts p d (s.targetType p type) = .ok node.data := by
  rw [targetNode] at h
  obtain ⟨shape, -, h⟩ := bind_eq_ok.mp h
  obtain ⟨data, hdata, h⟩ := bind_eq_ok.mp h
  cases h
  exact hdata

/-- What is given for the inputs of the converted graph are the moved values of
what is given for those of the source. -/
structure Feeds (s : Scope) (layouts : SortedMap ExplicitLayout) (given : Nat → Value)
    (given' : String → Value) : Prop where
  fills : ∀ p, s.IsInput p → s.Fills p (given p)
  moved : ∀ p name, s.IsInput p → s.nameOf? p = some name →
    given' name = s.movedValue layouts p (given p)

end Scope

/-! ## Tensors of a lowered graph -/

namespace Graph

variable {s : Scope} {layouts : SortedMap ExplicitLayout} {g : Graph} {t x y : Tensor} {p n : Nat}
  {name title : String} {l : Layout} {node : Target.TensorNode}

/-- Without a clash, what a reshape reads has the rank of its layout. -/
theorem Reshapes.rank_left (h : g.Reshapes n x y) (hclash : ¬g.Clash) (hl : x.layout = some l) :
    x.rank = l.rank := by
  by_contra hne
  exact hclash (Or.inr ⟨n, x, y, h, Or.inl ⟨.known (by rw [hl]; rfl), Or.inl ⟨l, hl, hne⟩⟩⟩)

theorem Reshapes.rank_right (h : g.Reshapes n x y) (hclash : ¬g.Clash) (hl : y.layout = some l) :
    y.rank = l.rank := by
  by_contra hne
  exact hclash (Or.inr ⟨n, x, y, h, Or.inr ⟨.known (by rw [hl]; rfl), Or.inl ⟨l, hl, hne⟩⟩⟩)

/-- A strict scope that was read, and whose lowering passes the checks. -/
structure Lowers (s : Scope) (layouts : SortedMap ExplicitLayout) (g : Graph) : Prop where
  intake : Intake s layouts g
  distinct : s.Distinct
  unreserved : s.Unreserved
  strict : s.strict = true
  storable : s.subgraph.Storable
  clash : ¬g.Clash
  tensors : ∀ e ∈ g.adapted.mentioned g.loweredOrder, Target.checkTensor e.2.node = .ok ()

namespace Lowers

variable (h : Lowers s layouts g)

include h

theorem vacant : g.Vacant := h.intake.vacant h.unreserved

theorem readable : g.Readable s.calls (s.tag layouts) := h.intake.readable

/-- A tensor of the rank of its layout was not flattened. -/
theorem shape_eq_extentsAt (ht : t ∈ g.tensors) (hp : s.nameOf? p = some t.name)
    (hl : t.layout = some l) (hrank : t.rank = l.rank) : t.shape = s.extentsAt p := by
  obtain ⟨d, hd, hname⟩ := Option.map_eq_some_iff.mp hp
  obtain ⟨type, -, hread⟩ := h.intake.asDeclared h.distinct h.unreserved ht hd hname
  have hdeclared := h.intake.taken.ranked t.bare (List.mem_map_of_mem ht) p d l hread.sourceIndex
    hd hl
  have hshape : t.shape = _ := hread.shape
  rw [Scope.extentsAt, hd]
  by_cases hflat : s.Flattened p d
  · rw [if_pos hflat] at hshape
    rw [Tensor.rank, hshape, List.length_singleton] at hrank
    have := hflat.2.2
    omega
  · rw [hshape, if_neg hflat]
    rfl

/-- A tensor that was read stands for the one that is declared under its name. -/
theorem placed (ht : t ∈ g.tensors) (hp : s.nameOf? p = some t.name) :
    s.Placed layouts (s.tag layouts) t.name p := by
  obtain ⟨d, hd, hname⟩ := Option.map_eq_some_iff.mp hp
  obtain ⟨type, -, hread⟩ := h.intake.asDeclared h.distinct h.unreserved ht hd hname
  have hlayout : t.layout = s.layoutAt layouts p := by
    rw [Scope.layoutAt, hd]
    exact h.intake.layout_eq h.strict h.distinct h.storable ht hd hname
  refine ⟨hp, (h.intake.tag_eq ht).trans hlayout, fun l hl => ?_⟩
  rw [Scope.extentsAt, hd]
  exact d.length_extents.trans (h.intake.taken.ranked t.bare (List.mem_map_of_mem ht) p d l
    hread.sourceIndex hd (hlayout.trans hl))

/-- A written tensor with a name of the source has the data of its declaration. -/
theorem data_of_mem_tensors (hnode : node ∈ (g.loweredGraph title).tensors)
    (hp : s.nameOf? p = some node.name) :
    ∃ d type, s.subgraph.tensors[p]? = some d ∧ s.Reads d type ∧
      s.Placed layouts (s.tag layouts) node.name p ∧
      s.targetData layouts p d (s.targetType p type) = .ok node.data := by
  obtain ⟨t, ht, hname, hmoved⟩ := h.intake.exists_of_mem_tensors h.unreserved h.clash hnode
    (h.unreserved.not_reserved hp)
  rw [← hname] at hp ⊢
  obtain ⟨d, hd, hdname⟩ := Option.map_eq_some_iff.mp hp
  obtain ⟨type, hr, -⟩ := h.intake.asDeclared h.distinct h.unreserved ht hd hdname
  obtain ⟨type', htype, htarget⟩ := h.intake.targetNode_eq h.clash h.strict h.storable h.distinct
    h.unreserved ht hd hdname
  obtain rfl := Option.some.inj (hr.converted.symm.trans htype)
  rw [hmoved] at htarget
  exact ⟨d, type, hd, hr, h.placed ht hp, Scope.targetData_of_targetNode htarget⟩

/-! ## What transposes find -/

/-- An operand that is turned back has its dimensions in target order. -/
theorem extents?_operand (hr : g.Reshapes n x y) (hp : s.nameOf? p = some x.name)
    (hl : x.layout = some l)
    (hmention : Mentions (s.boundary s.subgraph.inputs) (g.lowered s.calls (s.tag layouts))
      x.name) :
    (g.loweredGraph title).extents? x.name = some (permutedDims l.perm (s.extentsAt p)) := by
  have hrank := hr.rank_left h.clash hl
  have hshape := h.shape_eq_extentsAt hr.mem_left hp hl hrank
  obtain ⟨id, u, he, hname⟩ := h.intake.exists_mentioned h.vacant h.clash hmention
  refine Target.Graph.extents?_eq ⟨u.node, mem_tensors_of_mentioned he, hname⟩
    (fun node hnode hname => ?_) (Tensor.Writable.permutedDims_lt (s.extentsAt_lt p))
  obtain ⟨t, ht, hn, rfl⟩ := h.intake.exists_of_mem_tensors h.unreserved h.clash hnode
    (hname ▸ h.unreserved.not_reserved hp)
  obtain rfl := h.intake.named.eq_of_mem ht hr.mem_left (hn.trans hname)
  change t.bare.moved.shape.map Int64.ofNat = _
  rw [Tensor.shape_moved (t := t.bare) hl hrank, t.bare_shape, hshape]

/-- What a reshape writes for a transpose has its dimensions in source order. -/
theorem extents?_written (hr : g.Reshapes n x y) (hp : s.nameOf? p = some y.name)
    (hl : y.layout = some l)
    (hmention : Mentions (s.boundary s.subgraph.inputs) (g.lowered s.calls (s.tag layouts))
      (synthesizedName "ToTranspose" y.name)) :
    (g.loweredGraph title).extents? (synthesizedName "ToTranspose" y.name) =
      some (s.extentsAt p) := by
  have hrank := hr.rank_right h.clash hl
  have hshape := h.shape_eq_extentsAt hr.mem_right hp hl hrank
  obtain ⟨id, u, he, hname⟩ := h.intake.exists_mentioned h.vacant h.clash hmention
  refine Target.Graph.extents?_eq ⟨u.node, mem_tensors_of_mentioned he, hname⟩
    (fun node hnode hname => ?_) (s.extentsAt_lt p)
  obtain ⟨v, hv, rfl⟩ := exists_of_mem_tensors_targetOf hnode
  obtain ⟨j, hj⟩ := List.getElem?_of_mem hv
  obtain ⟨-, -, hsynthesized⟩ := (h.intake.populated h.vacant h.clash).of_name hj fun t ht heq =>
    (h.intake.clear h.unreserved t ht _).2 (heq.trans hname)
  obtain ⟨-, l', hl', hspliced⟩ := hsynthesized.eq_written h.intake.named hr.mem_right hname
  obtain rfl := Option.some.inj (hl.symm.trans hl')
  change v.bare.shape.map Int64.ofNat = _
  rw [hspliced]
  change (permutedDims l.inverse.perm y.moved.shape).map Int64.ofNat = _
  rw [Tensor.shape_moved hl hrank, l.permutedDims_inverse hrank, hshape]

end Lowers

/-! ## The start -/

theorem mem_initializers {k : Graph} {order : List OpId}
    (h : node ∈ (k.targetOf title order).initializers) :
    node ∈ (k.targetOf title order).tensors ∧ node.data.isSome = true := by
  refine ⟨by simp [Target.Graph.tensors, h], ?_⟩
  obtain ⟨⟨id, u⟩, -, heq⟩ := List.mem_map.mp (mem_inRole.mp h)
  obtain ⟨hrole, rfl⟩ := Prod.mk.inj heq
  exact role_eq_initializer.mp hrole

theorem mem_inputs {k : Graph} (hk : k.Named) {order : List OpId}
    (h : node ∈ (k.targetOf title order).inputs) :
    node ∈ (k.targetOf title order).tensors ∧ node.data = none ∧
      node.name ∈ k.inputs.filterMap k.nameOf? := by
  refine ⟨by simp [Target.Graph.tensors, h], ?_⟩
  obtain ⟨⟨id, u⟩, he, heq⟩ := List.mem_map.mp (mem_inRole.mp h)
  obtain ⟨hrole, rfl⟩ := Prod.mk.inj heq
  obtain ⟨hdata, hid⟩ := role_eq_input.mp hrole
  exact ⟨Option.isNone_iff_eq_none.mp (by simpa using hdata),
    (hk.mem_filterMap_nameOf? ((mem_mentioned hk).mp he).1).mpr hid⟩

/-- Both graphs start from the same values. -/
theorem Lowers.simulates_initial (h : Lowers s layouts g) (hshapes : s.IntegerShapes)
    {given : Nat → Value} {given' : String → Value} (hfeeds : s.Feeds layouts given given') :
    Simulates s layouts (s.tag layouts) [] (startNames (g.loweredGraph title)) (s.initial given)
      ((g.loweredGraph title).initial given') where
  convolved := rfl
  there := fun name => Target.Graph.isSome_initial fun node hnode => (mem_initializers hnode).2
  turned := fun _ hseen => absurd hseen List.not_mem_nil
  holds := by
    intro p name v' hp hval
    rcases Target.Graph.initial_cases hval with
      ⟨node, hnode, rfl, b, hb, rfl⟩ | ⟨⟨node, hnode, rfl⟩, rfl⟩
    · obtain ⟨d, type, hd, hr, hplaced, htarget⟩ :=
        h.data_of_mem_tensors (mem_initializers hnode).1 hp
      rw [hb] at htarget
      obtain ⟨b₀, hb₀, hvalue⟩ :=
        Scope.value_of_targetData hshapes hd hr hplaced.ranked htarget
      refine ⟨b₀.value, by simp [Scope.initial, hd, hb₀], ?_, hvalue⟩
      rw [Scope.Fills, Buffer.length_value, hr.fills b₀ hb₀, Scope.extentsAt, hd]
      rfl
    · obtain ⟨hmem, hdata, hboundary⟩ := mem_inputs (h.intake.adapted_named h.clash) hnode
      obtain ⟨d, type, hd, hr, -, htarget⟩ := h.data_of_mem_tensors hmem hp
      have hnone : s.constant? d = none := Scope.constant?_of_targetData (hdata ▸ htarget)
      have hinput : s.IsInput p := by
        rw [h.intake.adapted_inputs] at hboundary
        obtain ⟨index, hindex, hname⟩ := Scope.mem_boundary hboundary
        exact ⟨index, hindex, h.distinct.position_eq hname hp⟩
      exact ⟨given p, by simp [Scope.initial, hd, hnone, hinput], hfeeds.fills p hinput,
        hfeeds.moved p _ hinput hp⟩

end Graph

end Relayout
