/-
# What intake leaves

Taking in a source stops because of the input, or it leaves a graph that is the
source, read: `Taken` says so for the operators read so far.  Its parts are the
registry, the edges, and one operator for each declaration, which stands for the
call that the declaration makes.
-/
import Relayout.Proofs.Graph.Reading

namespace Relayout

/-- The kind of operator that a call is made to. -/
def Call.HasKind : Call → Kind → Prop
  | .conv .., kind => ∃ c, kind = .conv c
  | .reshape .., kind => kind = .reshape false

namespace Graph

variable {s : Scope} {requests : List Request} {shapes : List String} {g g' g₀ : Graph}
  {index : Nat} {kind : Kind} {ins outs : List String} {decl : Source.OperatorDecl}

/-- An operator of a graph that stands for a call of the source. -/
structure Stands (g : Graph) (index : Nat) (c : Call) (o : Operator) : Prop where
  index : o.index = some index
  name : o.name = c.output
  kind : c.HasKind o.kind
  inputs : o.inputs.map g.nameOf? = c.inputs.map some
  outputs : o.outputs.map g.nameOf? = [some c.output]
  pre : o.pre = []
  post : o.post = []
  status : o.status = .parsed

theorem Stands.map_outputs {c : Call} {o : Operator} (h : g.Stands index c o) :
    o.outputs.map g.nameOf? = [c.output].map some := h.outputs

theorem Stands.keep {c : Call} {o : Operator} (h : g.Stands index c o) (hk : g.Keeps g') :
    g'.Stands index c o :=
  ⟨h.index, h.name, h.kind, hk.map_nameOf? h.inputs,
    hk.map_nameOf? h.map_outputs, h.pre, h.post, h.status⟩

/-- The graph `g₀` after its next operator was read. -/
structure Finished (s : Scope) (g₀ : Graph) (index : Nat) (c : Call) (requests : List Request)
    (shapes : List String) (g : Graph) : Prop where
  registry : Registry s requests shapes g.bares
  named : g.Named
  wired : g.Wired
  ranked : g.Ranked s
  ops : ∃ o, g.ops = g₀.ops ++ [o] ∧ g.Stands index c o
  order : g.order = g₀.order
  created : g.created = g₀.created
  keeps : g₀.Keeps g

/-- An operator takes the name of its output, and is complete. -/
theorem Reading.finish_run {c : Call} (output : TensorId)
    (h : Reading s g₀ index kind requests shapes c.inputs [c.output] g) (hranked : g.Ranked s)
    (hname : g.nameOf? output = some c.output) (hkind : c.HasKind kind) :
    ∃ g', finish ⟨g₀.ops.length⟩ output g = .ok () g' ∧
      Finished s g₀ index c requests shapes g' := by
  obtain ⟨inputs, outputs, hops, hins, houts⟩ := h.current
  obtain ⟨t, ht, hname⟩ := Option.map_eq_some_iff.mp hname
  have hop : g.ops[(⟨g₀.ops.length⟩ : OpId).index]? =
      some (.unfinished index kind inputs outputs) := by
    rw [hops]
    simp
  have hrun : updateOp ⟨g₀.ops.length⟩ (fun o => { o with name := t.name }.setParsed) g =
      .ok () _ := run_updateOp
    (f := fun o => { o with name := t.name, status := .parsed }) hop rfl
  refine ⟨_, (Step.run_bind_of_ok (run_tensor ht)).trans hrun, h.registry, h.named, ⟨?_, ?_⟩,
    hranked,
    ⟨{ Operator.unfinished index kind inputs outputs with name := t.name, status := .parsed },
      by rw [hops, modify_concat], rfl, hname, hkind, hins, houts, rfl, rfl, rfl⟩, h.order,
    h.created, h.keeps⟩
  · rw [map_modify_of_eq (f := fun o : Operator => { o with name := t.name, status := .parsed })
      (p := Operator.inputs) (fun _ => rfl)]
    exact h.wired.consumers
  · rw [map_modify_of_eq (f := fun o : Operator => { o with name := t.name, status := .parsed })
      (p := Operator.outputs) (fun _ => rfl)]
    exact h.wired.producers

/-! ## Convolutions -/

/-- The parameters of the operator become known. -/
theorem Reading.setKind_run (h : Reading s g₀ index kind requests shapes ins outs g)
    (kind' : Kind) :
    ∃ g', changeOp ⟨g₀.ops.length⟩ (fun o => { o with kind := kind' }) g = .ok () g' ∧
      g'.tensors = g.tensors ∧ Reading s g₀ index kind' requests shapes ins outs g' := by
  obtain ⟨inputs, outputs, hops, hins, houts⟩ := h.current
  have hop : g₀.ops.length < g.ops.length := by
    rw [hops]
    simp
  refine ⟨_, run_changeOp hop _, rfl, h.registry, h.named, ⟨?_, ?_⟩,
    ⟨inputs, outputs, by rw [hops, modify_concat]; rfl, hins, houts⟩, h.order, h.created, h.keeps⟩
  · rw [map_modify_of_eq (f := fun o : Operator => { o with kind := kind' })
      (p := Operator.inputs) (fun _ => rfl)]
    exact h.wired.consumers
  · rw [map_modify_of_eq (f := fun o : Operator => { o with kind := kind' })
      (p := Operator.outputs) (fun _ => rfl)]
    exact h.wired.producers

theorem hasInput_lt {slot : Nat} (h : hasInput decl slot = true) : slot < decl.inputs.length := by
  unfold hasInput at h
  split at h
  · rename_i hslot
    exact (List.getElem?_eq_some_iff.mp hslot).1
  · cases h

theorem Reading.takeBias_ends (h : Reading s g₀ index kind requests shapes ins outs g)
    (hranked : g.Ranked s) (hdecl : s.subgraph.operators[index]? = some decl) :
    Step.Ends Fault.FromInput
      (fun _ g' => ∃ bias, s.optionalIn? decl 2 = some bias ∧ g'.Ranked s ∧
        Reading s g₀ index kind (requests ++ bias.toList.map (·, none)) shapes
          (ins ++ bias.toList) outs g')
      (takeBias s ⟨g₀.ops.length⟩ decl g) := by
  unfold takeBias Scope.optionalIn?
  by_cases hslot : hasInput decl 2 = true
  · rw [if_pos hslot, if_pos hslot]
    refine (h.takeInput_ends hdecl _ (hasInput_lt hslot) none true).bind ?_
    rintro id g' ⟨name, hname, -, h', hranked'⟩
    exact ⟨some name, by rw [hname]; rfl, hranked' hranked (fun _ _ _ hl => by cases hl), h'⟩
  · rw [if_neg hslot, if_neg hslot]
    exact ⟨none, rfl, hranked, by simpa using h⟩

theorem checkArity_ok {operator : String} {side : Side} {least most actual : Nat} {u : Unit}
    (h : checkArity operator index side least most actual = .ok u) :
    least ≤ actual ∧ actual ≤ most := by
  unfold checkArity at h
  split at h
  · assumption
  · cases h

/-- The check of an operand count. -/
theorem checkArity_ends {operator : String} {side : Side} {least most actual : Nat} :
    Step.Ends Fault.FromInput (fun _ g' => (least ≤ actual ∧ actual ≤ most) ∧ g = g')
      ((liftM (checkArity operator index side least most actual) : Step Graph Unit) g) :=
  Step.Ends.lift fun _ ha => ⟨checkArity_ok ha, rfl⟩

theorem Reading.parseConv_ends (h : Reading s g₀ index kind requests shapes [] [] g)
    (hranked : g.Ranked s) (hdecl : s.subgraph.operators[index]? = some decl)
    (hopcode : s.model.opcode decl = .conv2d) :
    Step.Ends Fault.FromInput
      (fun _ g' => ∃ c, s.call? decl = some c ∧
        Finished s g₀ index c (requests ++ c.requests) (shapes ++ c.shapes) g')
      (parseConv s ⟨g₀.ops.length⟩ g) := by
  unfold parseConv
  rw [Step.run_bind_of_ok (h.run_declaration hdecl)]
  dsimp only
  rw [Step.run_bind_of_ok (Step.run_require hopcode _ g)]
  refine checkArity_ends.bind ?_
  rintro _ _ ⟨⟨hinputs, -⟩, rfl⟩
  refine checkArity_ends.bind ?_
  rintro _ _ ⟨houtputs, rfl⟩
  have houtputs := Nat.le_antisymm houtputs.2 houtputs.1
  refine Step.Ends.bind (R := fun _ g' => g = g') (Step.Ends.lift fun _ _ => rfl) ?_
  rintro options _ rfl
  -- the activations
  refine (h.takeInput_ends hdecl 0 (by omega) (some .activation) false).bind ?_
  rintro xId g₁ ⟨x, hx, hxId, h₁, hranked₁⟩
  refine (checkActivationRank_ends hxId).bind ?_
  rintro _ _ ⟨rfl, hrank₁⟩
  have hranked₁ := hranked₁ hranked fun t l ht hl => by cases hl; exact hrank₁ t ht
  -- the weights
  refine (h₁.takeInput_ends hdecl 1 (by omega) (some .weights) true).bind ?_
  rintro wId g₂ ⟨w, hw, hwId, h₂, hranked₂⟩
  refine (kernelSize_ends hwId).bind ?_
  rintro kernel _ ⟨rfl, hrank₂⟩
  have hranked₂ := hranked₂ hranked₁ fun t l ht hl => by cases hl; exact hrank₂ t ht
  -- the bias
  refine (h₂.takeBias_ends hranked₂ hdecl).bind ?_
  rintro _ g₃ ⟨b, hb, hranked₃, h₃⟩
  -- the output
  refine (h₃.takeOutput_ends hdecl 0 (by omega) (some .activation)).bind ?_
  rintro yId g₄ ⟨y, hy, hyId, h₄, hranked₄⟩
  refine (checkActivationRank_ends hyId).bind ?_
  rintro _ _ ⟨rfl, hrank₄⟩
  have hranked₄ := hranked₄ hranked₃ fun t l ht hl => by cases hl; exact hrank₄ t ht
  obtain ⟨g₅, hrun₅, htensors, h₅⟩ := h₄.setKind_run (.conv (convolution options kernel))
  rw [Step.run_bind_of_ok hrun₅]
  have hcall : s.call? decl = some (.conv x w b y) := by
    simp [Scope.call?, hopcode, hx, hw, hb, Scope.soleOutput?_of_length houtputs, hy]
  obtain ⟨g₆, hrun₆, h₆⟩ := Reading.finish_run (c := .conv x w b y) yId h₅
    (by rw [Ranked, bares, htensors]; exact hranked₄) (by rw [nameOf?, htensors]; exact hyId)
    ⟨_, rfl⟩
  rw [hrun₆]
  refine ⟨_, hcall, ?_⟩
  simpa [Call.requests, Call.shapes] using h₆

/-! ## Reshapes -/

/-- A declared shape operand is normalized. -/
theorem Reading.normalizeShape_run (h : Reading s g₀ index kind requests shapes ins outs g)
    (hranked : g.Ranked s) {id : TensorId} {name : String} (hname : g.nameOf? id = some name) :
    ∃ g', normalizeShape id g = .ok () g' ∧ g'.Ranked s ∧
      Reading s g₀ index kind requests (shapes ++ [name]) ins outs g' := by
  obtain ⟨inputs, outputs, hops, hins, houts⟩ := h.current
  obtain ⟨t, ht, rfl⟩ := Option.map_eq_some_iff.mp hname
  have htype : t.elementType.isSome := h.registry.elementType_isSome (t := t.bare) (mem_bares ht)
  obtain ⟨ws, hrun⟩ := Graph.normalizeShape_run ht htype
  have hbares : (g.tensors.modify id.index Tensor.asShape).map Tensor.bare =
      g.bares.modify id.index Tensor.asShape :=
    map_modify (f := Tensor.asShape) (p := Tensor.bare) (fun _ => rfl) _ _
  have hnames := map_modify_of_eq Tensor.asShape_name g.tensors id.index
  have hkeeps : g.Keeps { g with
      tensors := g.tensors.modify id.index Tensor.asShape, warnings := ws } :=
    keeps_of_names hnames
  refine ⟨_, hrun, ?_, ?_, h.named.of_names hnames rfl, ⟨?_, ?_⟩,
    ⟨inputs, outputs, hops, hkeeps.map_nameOf? hins, hkeeps.map_nameOf? houts⟩,
    h.order, h.created, h.keeps.trans hkeeps⟩
  · intro u hu
    rw [bares, hbares] at hu
    obtain ⟨j, hj⟩ := List.getElem?_of_mem hu
    rw [List.getElem?_modify] at hj
    obtain ⟨v, hv, rfl⟩ := Option.map_eq_some_iff.mp hj
    have := hranked v (List.mem_of_getElem? hv)
    by_cases hij : id.index = j
    · rw [if_pos hij]
      exact this
    · rw [if_neg hij]
      exact this
  · rw [bares, hbares]
    exact h.registry.shape (t := t.bare) (getElem?_bares ht)
  · rw [map_modify_of_eq (f := Tensor.asShape) (p := Tensor.consumers) (fun _ => rfl)]
    exact h.wired.consumers
  · rw [map_modify_of_eq (f := Tensor.asShape) (p := Tensor.producers) (fun _ => rfl)]
    exact h.wired.producers

/-- A synthesized shape operand is registered and attached. -/
theorem Reading.takeVector_ends (h : Reading s g₀ index kind requests shapes ins outs g)
    (hranked : g.Ranked s) (hdecl : s.subgraph.operators[index]? = some decl)
    {newShape : List Int32} {owner : String} (hoptions : decl.options = .reshape newShape)
    (howner : s.nameIn? decl.outputs 0 = some owner) :
    Step.Ends Fault.FromInput
      (fun _ g' => g'.Ranked s ∧
        Reading s g₀ index kind (requests ++ [(synthesizedName "Vector" owner, none)]) shapes
          (ins ++ [synthesizedName "Vector" owner]) outs g')
      ((vector owner (newShape.map Int32.toInt) >>= fun shape =>
        changeTensor shape (·.addConsumer ⟨g₀.ops.length⟩) >>= fun _ =>
          changeOp ⟨g₀.ops.length⟩ (·.addInput shape)) g) := by
  obtain ⟨inputs, outputs, hops, hins, houts⟩ := h.current
  obtain ⟨id, ts, names, hrun, hnamed, hid, hts, hregistry⟩ :=
    vector_run h.registry h.named (List.mem_of_getElem? hdecl) hoptions howner
  have hkeeps : g.Keeps { g with tensors := g.tensors ++ ts, byName := names } :=
    keeps_of_append rfl
  have h₁ : Reading s g₀ index kind (requests ++ [(synthesizedName "Vector" owner, none)]) shapes
      ins outs { g with tensors := g.tensors ++ ts, byName := names } :=
    ⟨hregistry, hnamed, h.wired.addTensors (fun t ht => (hts t ht).1) names g.warnings,
      ⟨inputs, outputs, hops, hkeeps.map_nameOf? hins, hkeeps.map_nameOf? houts⟩, h.order,
      h.created, h.keeps.trans hkeeps⟩
  have hranked₁ : Ranked s { g with tensors := g.tensors ++ ts, byName := names } := by
    intro u hu
    rw [bares, List.map_append] at hu
    rcases List.mem_append.mp hu with hu | hu
    · exact hranked u hu
    · obtain ⟨t, ht, rfl⟩ := List.mem_map.mp hu
      intro k d l hk
      rw [Tensor.bare_sourceIndex, (hts t ht).2] at hk
      cases hk
  obtain ⟨g₂, hrun₂, -, hbares, h₂⟩ := h₁.attachInput hid
  rw [Step.run_bind_of_ok hrun, hrun₂]
  exact ⟨by rw [Ranked, hbares]; exact hranked₁, h₂⟩

theorem declaredNewShape_ok {values : List Int} (h : declaredNewShape index decl = .ok values) :
    ∃ newShape, decl.options = .reshape newShape ∧ values = newShape.map Int32.toInt := by
  unfold declaredNewShape at h
  split at h
  · rename_i newShape hoptions
    cases h
    exact ⟨newShape, hoptions, rfl⟩
  · cases h

theorem Reading.takeShape_ends (h : Reading s g₀ index kind requests shapes ins outs g)
    (hranked : g.Ranked s) (hdecl : s.subgraph.operators[index]? = some decl)
    (houtputs : 1 ≤ decl.outputs.length) :
    Step.Ends Fault.FromInput
      (fun _ g' => ∃ shape operand, s.optionalIn? decl 1 = some shape ∧
        (∀ y, s.nameIn? decl.outputs 0 = some y →
          operand = shape.getD (synthesizedName "Vector" y)) ∧
        g'.Ranked s ∧ Reading s g₀ index kind (requests ++ [(operand, none)])
          (shapes ++ shape.toList) (ins ++ [operand]) outs g')
      (takeShape s ⟨g₀.ops.length⟩ index decl g) := by
  unfold takeShape Scope.optionalIn?
  by_cases hslot : hasInput decl 1 = true
  · rw [if_pos hslot, if_pos hslot]
    refine (h.takeInput_ends hdecl _ (hasInput_lt hslot) none false).bind ?_
    rintro id g₁ ⟨name, hname, hid, h₁, hranked₁⟩
    have hranked₁ := hranked₁ hranked fun _ _ _ hl => by cases hl
    obtain ⟨g₂, hrun, hranked₂, h₂⟩ := h₁.normalizeShape_run hranked₁ hid
    rw [hrun]
    exact ⟨some name, name, by rw [hname]; rfl, fun _ _ => rfl, hranked₂, h₂⟩
  · rw [if_neg hslot, if_neg hslot]
    refine Step.Ends.bind
      (R := fun values g' => (∃ newShape, decl.options = .reshape newShape ∧
        values = newShape.map Int32.toInt) ∧ g = g')
      (Step.Ends.lift fun _ hv => ⟨declaredNewShape_ok hv, rfl⟩) ?_
    rintro _ _ ⟨⟨newShape, hoptions, rfl⟩, rfl⟩
    have ho := List.getElem?_eq_getElem (show 0 < decl.outputs.length from houtputs)
    rw [entryAt_of_getElem? ho, Step.run_bind_of_ok (Step.run_liftViolation_ok _ _)]
    refine Step.Ends.bind
      (R := fun d g' => s.subgraph.tensor decl.outputs[0] = .ok d ∧ g = g')
      (Step.Ends.lift fun d hd => ⟨hd, rfl⟩) ?_
    rintro d _ ⟨hd, rfl⟩
    have hy : s.nameIn? decl.outputs 0 = some d.name := Scope.nameIn?_of_tensor ho hd
    refine (h.takeVector_ends hranked hdecl hoptions hy).mono ?_
    rintro _ g' ⟨hranked', h'⟩
    refine ⟨none, _, rfl, fun y hy' => ?_, hranked', by simpa using h'⟩
    rw [hy] at hy'
    cases hy'
    rfl

theorem Reading.parseReshape_ends
    (h : Reading s g₀ index (.reshape false) requests shapes [] [] g) (hranked : g.Ranked s)
    (hdecl : s.subgraph.operators[index]? = some decl)
    (hopcode : s.model.opcode decl = .reshape) :
    Step.Ends Fault.FromInput
      (fun _ g' => ∃ c, s.call? decl = some c ∧
        Finished s g₀ index c (requests ++ c.requests) (shapes ++ c.shapes) g')
      (parseReshape s ⟨g₀.ops.length⟩ g) := by
  unfold parseReshape
  rw [Step.run_bind_of_ok (h.run_declaration hdecl)]
  dsimp only
  rw [Step.run_bind_of_ok (Step.run_require hopcode _ g)]
  refine checkArity_ends.bind ?_
  rintro _ _ ⟨⟨hinputs, -⟩, rfl⟩
  refine checkArity_ends.bind ?_
  rintro _ _ ⟨houtputs, rfl⟩
  have houtputs := Nat.le_antisymm houtputs.2 houtputs.1
  -- the operand
  refine (h.takeInput_ends hdecl 0 (by omega) none false).discard.bind ?_
  rintro _ g₁ ⟨xId, x, hx, -, h₁, hranked₁⟩
  have hranked₁ := hranked₁ hranked fun _ _ _ hl => by cases hl
  -- the shape
  refine (h₁.takeShape_ends hranked₁ hdecl (Nat.le_of_eq houtputs.symm)).bind ?_
  rintro _ g₂ ⟨shape, operand, hshape, hoperand, hranked₂, h₂⟩
  -- the output
  refine (h₂.takeOutput_ends hdecl 0 (by omega) none).bind ?_
  rintro yId g₃ ⟨y, hy, hyId, h₃, hranked₃⟩
  have hranked₃ := hranked₃ hranked₂ fun _ _ _ hl => by cases hl
  have hcall : s.call? decl = some (.reshape x shape y) := by
    simp [Scope.call?, hopcode, hx, hshape, Scope.soleOutput?_of_length houtputs, hy]
  have hop := hoperand y hy
  subst hop
  obtain ⟨g₄, hrun, h₄⟩ := Reading.finish_run (c := .reshape x shape y) yId h₃ hranked₃ hyId rfl
  rw [hrun]
  refine ⟨_, hcall, ?_⟩
  simpa [Call.requests, Call.shapes] using h₄

/-! ## All operators -/

/-- The operators of the declarations `decls` have been taken in. -/
structure Taken (s : Scope) (requests : List Request) (shapes : List String)
    (decls : List Source.OperatorDecl) (g : Graph) : Prop where
  registry : Registry s requests shapes g.bares
  named : g.Named
  wired : g.Wired
  ranked : g.Ranked s
  length : g.ops.length = decls.length
  stands : ∀ {i decl}, decls[i]? = some decl →
    ∃ c o, s.call? decl = some c ∧ g.ops[i]? = some o ∧ g.Stands i c o
  order : g.order = (List.range decls.length).map OpId.mk
  created : g.created = []

theorem taken_empty (s : Scope) : Taken s [] [] [] .empty where
  registry := .empty
  named := named_empty
  wired := .empty
  ranked := by simp [Ranked, bares, empty]
  length := rfl
  stands := by simp
  order := rfl
  created := rfl

theorem Taken.keep_stands {decls : List Source.OperatorDecl} (h : Taken s requests shapes decls g)
    (hk : g.Keeps g') (hops : g'.ops = g.ops) {i : Nat} (hdecl : decls[i]? = some decl) :
    ∃ c o, s.call? decl = some c ∧ g'.ops[i]? = some o ∧ g'.Stands i c o := by
  obtain ⟨c, o, hc, ho, hstands⟩ := h.stands hdecl
  exact ⟨c, o, hc, by rw [hops, ho], hstands.keep hk⟩

/-- A request outside of any operator. -/
theorem Taken.requested {decls : List Source.OperatorDecl} (h : Taken s requests shapes decls g)
    {i : Int64} {layout : Option Layout} {id : TensorId}
    (hr : Requested s requests shapes g i layout id g') :
    ∃ name, s.nameAt? i = some name ∧ g'.nameOf? id = some name ∧ g.Keeps g' ∧
      (∃ ts names ws, g' = { g with tensors := ts, byName := names, warnings := ws }) ∧
      ((∀ t l, g'.bares[id.index]? = some t → layout = some l → t.rank = l.rank) →
        Taken s (requests ++ [(name, layout)]) shapes decls g') := by
  obtain ⟨name, hname, hid, hregistry, hnamed, hwired, hkeeps, ⟨ts, names, ws, rfl⟩, hranked⟩ :=
    hr.grown h.wired
  exact ⟨name, hname, hid, hkeeps, ⟨ts, names, ws, rfl⟩, fun hcheck => ⟨hregistry, hnamed, hwired,
    hranked h.ranked hcheck, h.length, fun hdecl => h.keep_stands hkeeps rfl hdecl, h.order,
    h.created⟩⟩

/-- Behind the operators that were taken stands the one that was just read. -/
theorem Taken.finish {decls : List Source.OperatorDecl} {c : Call} {g' : Graph}
    (h : Taken s requests shapes decls g) (hc : s.call? decl = some c)
    (hf : Finished s g decls.length c (requests ++ c.requests) (shapes ++ c.shapes) g') :
    Taken s (requests ++ c.requests) (shapes ++ c.shapes) (decls ++ [decl])
      { g' with order := g'.order ++ [⟨g.ops.length⟩] } := by
  obtain ⟨o, hops, hstands⟩ := hf.ops
  refine ⟨hf.registry, hf.named, ⟨hf.wired.consumers, hf.wired.producers⟩, hf.ranked, ?_, ?_, ?_,
    hf.created.trans h.created⟩
  · simp [hops, h.length]
  · intro i decl' hi
    by_cases hlt : i < decls.length
    · rw [List.getElem?_append_left hlt] at hi
      obtain ⟨c', o', hc', ho', hstands'⟩ := h.stands hi
      refine ⟨c', o', hc', ?_, (hstands'.keep hf.keeps).keep fun _ _ hn => hn⟩
      rw [hops, List.getElem?_append_left (by rw [h.length]; exact hlt)]
      exact ho'
    · obtain rfl : i = decls.length := by
        have := (List.getElem?_eq_some_iff.mp hi).1
        rw [List.length_append, List.length_singleton] at this
        omega
      rw [List.getElem?_concat_length] at hi
      cases hi
      refine ⟨c, o, hc, ?_, hstands.keep fun _ _ hn => hn⟩
      rw [hops, ← h.length]
      simp
  · dsimp only
    rw [hf.order, h.order, List.length_append, List.length_singleton, List.range_succ,
      List.map_append, h.length]
    rfl

theorem takeOp_ends {decls : List Source.OperatorDecl} (h : Taken s requests shapes decls g)
    (hdecl : s.subgraph.operators[decls.length]? = some decl) :
    Step.Ends Fault.FromInput
      (fun _ g' => ∃ c, s.call? decl = some c ∧
        Taken s (requests ++ c.requests) (shapes ++ c.shapes) (decls ++ [decl]) g')
      (takeOp s decls.length decl g) := by
  unfold takeOp
  refine Step.Ends.bind
    (R := fun kind g' => Kind.ofOpcode (s.model.opcode decl) = .ok kind ∧ g = g')
    (Step.Ends.lift fun _ hk => ⟨hk, rfl⟩) ?_
  rintro kind _ ⟨hkind, rfl⟩
  rw [Step.run_bind_of_ok (run_addOp _ g)]
  have hreading : Reading s g decls.length kind requests shapes [] []
      { g with ops := g.ops ++ [.fresh (some decls.length) "" kind] } :=
    ⟨h.registry, h.named, h.wired.addOp rfl rfl, ⟨[], [], rfl, rfl, rfl⟩, rfl, rfl, Keeps.refl g⟩
  refine Step.Ends.bind (R := fun _ g' => ∃ c, s.call? decl = some c ∧
    Finished s g decls.length c (requests ++ c.requests) (shapes ++ c.shapes) g') ?_
    fun _ g' ⟨c, hc, hf⟩ => ⟨c, hc, h.finish hc hf⟩
  -- the operator is at the end of its arena, and nothing of it is read
  have hop : (g.ops ++ [Operator.fresh (some decls.length) "" kind])[g.ops.length]? =
      some (.fresh (some decls.length) "" kind) := by simp
  rw [parseOp, Step.run_bind_of_ok (run_op hop), if_neg (by simp [Operator.fresh, Status.isParsed,
    Status.stage])]
  cases hopcode : s.model.opcode decl with
  | conv2d =>
      rw [hopcode] at hkind
      cases hkind
      exact hreading.parseConv_ends h.ranked hdecl hopcode
  | reshape =>
      rw [hopcode] at hkind
      cases hkind
      exact hreading.parseReshape_ends h.ranked hdecl hopcode
  | other code =>
      rw [hopcode] at hkind
      cases hkind

/-! ## The whole subgraph -/

theorem applyExplicitLayout_ends {decls : List Source.OperatorDecl}
    (h : Taken s requests shapes decls g) (entry : String × ExplicitLayout) :
    Step.Ends Fault.FromInput
      (fun _ g' => (s.explicitRequest? entry).isSome = true ∧
        Taken s (requests ++ (s.explicitRequest? entry).toList) shapes decls g')
      (applyExplicitLayout s entry.1 entry.2 g) := by
  unfold applyExplicitLayout
  cases hindex : s.subgraph.tensorIndex? entry.1 with
  | none => exact trivial
  | some index =>
      refine Step.Ends.bind (R := fun l g' => entry.2.toLayout entry.1 = .ok l ∧ g = g')
        (Step.Ends.lift fun _ hl => ⟨hl, rfl⟩) ?_
      rintro l _ ⟨hl, rfl⟩
      refine (requestParsed_ends h.registry h.named _ (some l) false).bind fun id g₁ hr => ?_
      obtain ⟨name, hname, hid, -, -, htaken⟩ := h.requested hr
      obtain ⟨t, ht, -⟩ := Option.map_eq_some_iff.mp hid
      rw [Step.run_bind_of_ok (run_tensor ht)]
      refine Step.Ends.expect fun hrank => ?_
      have hrequest : s.explicitRequest? entry = some (name, some l) := by
        simp [Scope.explicitRequest?, hindex, hname, hl]
      rw [hrequest]
      refine ⟨rfl, htaken fun u l' hu hl' => ?_⟩
      cases hl'
      rw [getElem?_bares ht] at hu
      cases hu
      exact hrank

theorem applyExplicitLayouts_ends (s : Scope) (layouts : SortedMap ExplicitLayout) :
    Step.Ends Fault.FromInput
      (fun _ g => (∀ entry ∈ layouts.entries, (s.explicitRequest? entry).isSome = true) ∧
        Taken s (s.explicitRequests layouts.entries) [] [] g)
      (applyExplicitLayouts s layouts .empty) := by
  refine Step.Ends.forM (I := fun done g =>
    (∀ entry ∈ done, (s.explicitRequest? entry).isSome = true) ∧
      Taken s (s.explicitRequests done) [] [] g) ⟨by simp, taken_empty s⟩ ?_
  rintro done entry rest g - ⟨hdone, h⟩
  refine (applyExplicitLayout_ends h entry).mono ?_
  rintro _ g' ⟨hentry, h'⟩
  have happend : s.explicitRequests (done ++ [entry]) =
      s.explicitRequests done ++ (s.explicitRequest? entry).toList := by
    rw [Scope.explicitRequests, List.filterMap_append, Scope.explicitRequests]
    cases h : s.explicitRequest? entry <;> simp [h]
  rw [happend]
  refine ⟨fun e he => ?_, h'⟩
  rcases List.mem_append.mp he with he | he
  · exact hdone e he
  · exact List.mem_singleton.mp he ▸ hentry

/-- All operators are read in source order. -/
theorem takeOps_ends (h : Taken s requests [] [] g) :
    Step.Ends Fault.FromInput
      (fun _ g' => Taken s
        (requests ++ (s.callsOf s.subgraph.operators).flatMap Call.requests) s.shapes
        s.subgraph.operators g')
      ((s.subgraph.operators.zipIdx.forM fun (decl, index) => takeOp s index decl) g) := by
  have hfst : s.subgraph.operators.zipIdx.map Prod.fst = s.subgraph.operators := by
    simp [List.zipIdx_map_fst]
  suffices hloop : Step.Ends Fault.FromInput
      (fun _ g' => Taken s
        (requests ++ (s.callsOf (s.subgraph.operators.zipIdx.map Prod.fst)).flatMap Call.requests)
        ((s.callsOf (s.subgraph.operators.zipIdx.map Prod.fst)).flatMap Call.shapes)
        (s.subgraph.operators.zipIdx.map Prod.fst) g')
      ((s.subgraph.operators.zipIdx.forM fun (decl, index) => takeOp s index decl) g) by
    rwa [hfst] at hloop
  refine Step.Ends.forM
    (I := fun done g' => Taken s
      (requests ++ (s.callsOf (done.map Prod.fst)).flatMap Call.requests)
      ((s.callsOf (done.map Prod.fst)).flatMap Call.shapes) (done.map Prod.fst) g')
    (by simpa [Scope.callsOf] using h) ?_
  · rintro done ⟨decl, index⟩ rest g' hmembers h'
    have hat : s.subgraph.operators.zipIdx[done.length]? = some (decl, index) := by
      rw [hmembers]
      simp
    obtain ⟨hdecl, rfl⟩ : s.subgraph.operators[done.length]? = some decl ∧ index = done.length := by
      rw [List.getElem?_zipIdx] at hat
      obtain ⟨d, hd, heq⟩ := Option.map_eq_some_iff.mp hat
      cases heq
      exact ⟨hd, by simp⟩
    have hstep := takeOp_ends h'
      (show s.subgraph.operators[(done.map Prod.fst).length]? = some decl by simpa using hdecl)
    rw [List.length_map] at hstep
    refine hstep.mono ?_
    rintro _ g'' ⟨c, hc, h''⟩
    have hcalls : s.callsOf ((done ++ [(decl, done.length)]).map Prod.fst) =
        s.callsOf (done.map Prod.fst) ++ [c] := by
      simp [Scope.callsOf, hc]
    rw [hcalls]
    simpa using h''

theorem takeBoundary_ends {decls : List Source.OperatorDecl} (h : Taken s requests shapes decls g)
    (indices : List UInt64) :
    Step.Ends Fault.FromInput
      (fun ids g' => Taken s (requests ++ s.boundaryRequests indices) shapes decls g' ∧
        g.Keeps g' ∧
        (∃ ts names ws, g' = { g with tensors := ts, byName := names, warnings := ws }) ∧
        ids.map g'.nameOf? = (s.boundary indices).map some ∧
        (s.boundary indices).map some = indices.map fun index => s.nameAt? index.toInt64)
      (takeBoundary s indices g) := by
  refine Step.Ends.mapM
    (I := fun done ids g' => Taken s (requests ++ s.boundaryRequests done) shapes decls g' ∧
      g.Keeps g' ∧
      (∃ ts names ws, g' = { g with tensors := ts, byName := names, warnings := ws }) ∧
      ids.map g'.nameOf? = (s.boundary done).map some ∧
      (s.boundary done).map some = done.map fun index => s.nameAt? index.toInt64) ?_ ?_
  · exact ⟨by simpa [Scope.boundaryRequests, Scope.boundary] using h, Keeps.refl g,
      ⟨g.tensors, g.byName, g.warnings, rfl⟩, rfl, rfl⟩
  · rintro done index rest ids g' - ⟨h', hkeeps, ⟨ts, names, ws, rfl⟩, hids, hdone⟩
    refine (requestParsed_ends h'.registry h'.named _ none false).mono fun id g'' hr => ?_
    obtain ⟨name, hname, hid, hkeeps', ⟨ts', names', ws', rfl⟩, htaken⟩ := h'.requested hr
    have hboundary : s.boundary (done ++ [index]) = s.boundary done ++ [name] := by
      simp [Scope.boundary, hname]
    refine ⟨?_, hkeeps.trans hkeeps', ⟨ts', names', ws', rfl⟩, ?_, ?_⟩
    · have := htaken fun _ _ _ hl => by cases hl
      simpa [Scope.boundaryRequests, hboundary] using this
    · rw [hboundary, List.map_append, List.map_append, hkeeps'.map_nameOf? hids]
      simp [hid]
    · rw [hboundary, List.map_append, List.map_append, hdone]
      simp [hname]

/-- The graph that is the source, read. -/
structure Intake (s : Scope) (layouts : SortedMap ExplicitLayout) (g : Graph) : Prop where
  taken : Taken s (s.requests layouts) s.shapes s.subgraph.operators g
  /-- All known layouts were valid. -/
  explicit : ∀ entry ∈ layouts.entries, (s.explicitRequest? entry).isSome = true
  inputs : g.inputs.map g.nameOf? = (s.boundary s.subgraph.inputs).map some
  outputs : g.outputs.map g.nameOf? = (s.boundary s.subgraph.outputs).map some
  inputs_named : (s.boundary s.subgraph.inputs).map some =
    s.subgraph.inputs.map fun index => s.nameAt? index.toInt64
  outputs_named : (s.boundary s.subgraph.outputs).map some =
    s.subgraph.outputs.map fun index => s.nameAt? index.toInt64

theorem Intake.stands_at {layouts : SortedMap ExplicitLayout} {i : Nat} {o : Operator}
    (h : Intake s layouts g) (ho : g.ops[i]? = some o) :
    ∃ decl c, s.subgraph.operators[i]? = some decl ∧ s.call? decl = some c ∧ g.Stands i c o := by
  have hi : i < s.subgraph.operators.length := by
    rw [← h.taken.length]
    exact (List.getElem?_eq_some_iff.mp ho).1
  have hdecl := List.getElem?_eq_getElem hi
  obtain ⟨c, o', hc, ho', hstands⟩ := h.taken.stands hdecl
  obtain rfl := Option.some.inj (ho.symm.trans ho')
  exact ⟨_, c, hdecl, hc, hstands⟩

theorem Taken.setBoundary {decls : List Source.OperatorDecl} (h : Taken s requests shapes decls g)
    (inputs outputs : List TensorId) :
    Taken s requests shapes decls { g with inputs := inputs, outputs := outputs } :=
  ⟨h.registry, h.named, ⟨h.wired.consumers, h.wired.producers⟩, h.ranked, h.length, fun hdecl =>
    h.keep_stands (show g.Keeps { g with inputs := inputs, outputs := outputs } from
      fun _ _ hn => hn) rfl hdecl, h.order, h.created⟩

theorem parse_ends {layouts : SortedMap ExplicitLayout}
    (hexplicit : ∀ entry ∈ layouts.entries, (s.explicitRequest? entry).isSome = true)
    (h : Taken s (s.explicitRequests layouts.entries) [] [] g) :
    Step.Ends Fault.FromInput (fun _ g' => Intake s layouts g') (parse s g) := by
  unfold parse
  refine (takeOps_ends h).bind fun _ g₁ h₁ => ?_
  refine (takeBoundary_ends h₁ _).bind ?_
  rintro ins g₂ ⟨h₂, -, ⟨ts, names, ws, rfl⟩, hins, hnamed⟩
  rw [Step.run_bind_of_ok (Step.run_modify _ _)]
  refine (takeBoundary_ends (h₂.setBoundary ins g₁.outputs) _).bind ?_
  rintro outs g₃ ⟨h₃, hkeeps, ⟨ts', names', ws', rfl⟩, houts, hnamed'⟩
  have hins' := hkeeps.map_nameOf? hins
  exact ⟨h₃.setBoundary ins outs, hexplicit, hins', houts, hnamed, hnamed'⟩

/-- Intake stops because of the input, or the graph is the source, read. -/
theorem intake_ends (s : Scope) (layouts : SortedMap ExplicitLayout) :
    Step.Ends Fault.FromInput (fun _ g => Intake s layouts g)
      ((do applyExplicitLayouts s layouts; parse s : Step Graph Unit) .empty) :=
  (applyExplicitLayouts_ends s layouts).bind fun _ _ h => parse_ends h.1 h.2

end Graph

end Relayout
