/-
# Reading an operator

While an operator is read it is the last of its arena, with the operands taken
so far; `Reading` is what holds then.  Every operand that is taken is requested,
read, and attached on both sides.  Layouts are asked for before ranks are
checked, so a new tensor is known to have the rank of its layout only after the
check that follows.
-/
import Relayout.Proofs.Graph.Requests
import Relayout.Proofs.Graph.Wiring

namespace Relayout

/-- An operator of the source with the operands taken so far. -/
def Operator.unfinished (index : Nat) (kind : Kind) (inputs outputs : List TensorId) :
    Operator where
  index := some index
  name := ""
  kind := kind
  inputs := inputs
  outputs := outputs
  pre := []
  post := []
  status := .inited

namespace Graph

variable {s : Scope} {requests : List Request} {shapes : List String} {g g' g₀ : Graph}

/-! ## Growing -/

/-- The names of all tensors are kept. -/
def Keeps (g g' : Graph) : Prop := ∀ id name, g.nameOf? id = some name → g'.nameOf? id = some name

theorem Keeps.refl (g : Graph) : g.Keeps g := fun _ _ h => h

theorem Keeps.trans {g'' : Graph} (h : g.Keeps g') (h' : g'.Keeps g'') : g.Keeps g'' :=
  fun id name hn => h' id name (h id name hn)

theorem Keeps.map_nameOf? (h : g.Keeps g') {ids : List TensorId} {names : List String}
    (hn : ids.map g.nameOf? = names.map some) : ids.map g'.nameOf? = names.map some := by
  rw [← hn]
  refine List.map_congr_left fun id hid => ?_
  have : g.nameOf? id ∈ names.map some := hn ▸ List.mem_map_of_mem hid
  obtain ⟨name, -, hname⟩ := List.mem_map.mp this
  rw [← hname, h id name hname.symm]

theorem keeps_of_append {ts : List Tensor} (h : g'.tensors = g.tensors ++ ts) : g.Keeps g' := by
  intro id name hn
  obtain ⟨t, ht, rfl⟩ := Option.map_eq_some_iff.mp hn
  rw [nameOf?, h, List.getElem?_append_left (List.getElem?_eq_some_iff.mp ht).1, ht,
    Option.map_some]

theorem keeps_of_names (h : g'.tensors.map Tensor.name = g.tensors.map Tensor.name) :
    g.Keeps g' := by
  intro id name hn
  rwa [nameOf?, ← List.getElem?_map, h, List.getElem?_map]

/-- Every source tensor with a layout was declared with its rank. -/
def Ranked (s : Scope) (g : Graph) : Prop := ∀ t ∈ g.bares, t.Ranked s

/-- What a request does to a graph.  The rank of a new tensor is for the caller
to check. -/
theorem Requested.grown {i : Int64} {layout : Option Layout} {id : TensorId}
    (h : Requested s requests shapes g i layout id g') (hwired : g.Wired) :
    ∃ name, s.nameAt? i = some name ∧ g'.nameOf? id = some name ∧
      Registry s (requests ++ [(name, layout)]) shapes g'.bares ∧ g'.Named ∧ g'.Wired ∧
      g.Keeps g' ∧
      (∃ ts names ws, g' = { g with tensors := ts, byName := names, warnings := ws }) ∧
      (g.Ranked s → (∀ t l, g'.bares[id.index]? = some t → layout = some l → t.rank = l.rank) →
        g'.Ranked s) := by
  obtain ⟨d, ts, names, ws, hd, rfl, hnamed, hname, hts, hregistry⟩ := h
  refine ⟨d.name, Scope.nameAt?_of_tensor hd, hname, hregistry, hnamed,
    hwired.addTensors (fun t ht => (hts t ht).2.1) names ws, keeps_of_append rfl,
    ⟨_, _, _, rfl⟩, ?_⟩
  intro hranked hcheck t ht
  rw [bares, List.map_append] at ht
  rcases List.mem_append.mp ht with ht | ht
  · exact hranked t ht
  · -- a new tensor is the requested one, and as declared
    obtain ⟨u, hu, rfl⟩ := List.mem_map.mp ht
    obtain ⟨hat, -, hlayout, k, d', hk, hd', hshape⟩ := hts u hu
    intro k' d'' l hk' hd'' hl
    rw [Tensor.bare_sourceIndex, hk] at hk'
    cases hk'
    rw [hd'] at hd''
    cases hd''
    rw [Tensor.bare_layout, hlayout] at hl
    rw [← hcheck u.bare l (getElem?_bares hat) hl, Tensor.rank, Tensor.bare_shape, hshape,
      Source.TensorDecl.length_extents]

/-! ## Reading an operator -/

/-- The graph `g₀` while its next operator is read: the operands `ins` and
`outs` have been taken. -/
structure Reading (s : Scope) (g₀ : Graph) (index : Nat) (kind : Kind) (requests : List Request)
    (shapes : List String) (ins outs : List String) (g : Graph) : Prop where
  registry : Registry s requests shapes g.bares
  named : g.Named
  wired : g.Wired
  current : ∃ inputs outputs, g.ops = g₀.ops ++
      [.unfinished index kind inputs outputs] ∧
    inputs.map g.nameOf? = ins.map some ∧ outputs.map g.nameOf? = outs.map some
  order : g.order = g₀.order
  created : g.created = g₀.created
  keeps : g₀.Keeps g

namespace Reading

variable {index : Nat} {kind : Kind} {ins outs : List String}

theorem run_declaration (h : Reading s g₀ index kind requests shapes ins outs g)
    {decl : Source.OperatorDecl} (hdecl : s.subgraph.operators[index]? = some decl) :
    declaration s ⟨g₀.ops.length⟩ g = .ok (index, decl) g := by
  obtain ⟨inputs, outputs, hops, -, -⟩ := h.current
  have hop : g.ops[(⟨g₀.ops.length⟩ : OpId).index]? =
      some (.unfinished index kind inputs outputs) := by
    rw [hops]
    simp
  rw [declaration, Step.run_bind_of_ok (run_op hop)]
  dsimp only [Operator.unfinished]
  rw [entryAt_of_getElem? hdecl]
  rfl

/-- A request while an operator is read. -/
theorem requested (h : Reading s g₀ index kind requests shapes ins outs g) {i : Int64}
    {layout : Option Layout} {id : TensorId} (hr : Requested s requests shapes g i layout id g') :
    ∃ name, s.nameAt? i = some name ∧ g'.nameOf? id = some name ∧
      Reading s g₀ index kind (requests ++ [(name, layout)]) shapes ins outs g' ∧
      (g.Ranked s → (∀ t l, g'.bares[id.index]? = some t → layout = some l → t.rank = l.rank) →
        g'.Ranked s) := by
  obtain ⟨inputs, outputs, hops, hins, houts⟩ := h.current
  obtain ⟨name, hname, hid, hregistry, hnamed, hwired, hkeeps, ⟨ts, names, ws, rfl⟩, hranked⟩ :=
    hr.grown h.wired
  exact ⟨name, hname, hid, ⟨hregistry, hnamed, hwired,
    ⟨inputs, outputs, hops, hkeeps.map_nameOf? hins, hkeeps.map_nameOf? houts⟩,
    h.order, h.created, h.keeps.trans hkeeps⟩, hranked⟩

/-- An operand is attached: edges change, and the operator that is read. -/
theorem attached (h : Reading s g₀ index kind requests shapes ins outs g) {id : TensorId}
    {name : String} {onTensor : Tensor → Tensor} {onOp : Operator → Operator}
    {ins' outs' : List String} (hname : g.nameOf? id = some name)
    (hbare : ∀ t, (onTensor t).bare = t.bare)
    (hwired : id.index < g.tensors.length → g₀.ops.length < g.ops.length → Wired { g with
      tensors := g.tensors.modify id.index onTensor
      ops := g.ops.modify g₀.ops.length onOp })
    (hcurrent : ∀ inputs outputs, inputs.map g.nameOf? = ins.map some →
      outputs.map g.nameOf? = outs.map some → ∃ inputs' outputs',
        onOp (.unfinished index kind inputs outputs) = .unfinished index kind inputs' outputs' ∧
        inputs'.map g.nameOf? = ins'.map some ∧ outputs'.map g.nameOf? = outs'.map some) :
    ∃ g', (changeTensor id onTensor >>= fun _ => changeOp ⟨g₀.ops.length⟩ onOp) g = .ok () g' ∧
      g'.nameOf? id = some name ∧ g'.bares = g.bares ∧
      Reading s g₀ index kind requests shapes ins' outs' g' := by
  obtain ⟨inputs, outputs, hops, hins, houts⟩ := h.current
  have hid : id.index < g.tensors.length := by
    obtain ⟨t, ht, -⟩ := Option.map_eq_some_iff.mp hname
    exact (List.getElem?_eq_some_iff.mp ht).1
  have hop : g₀.ops.length < g.ops.length := by
    rw [hops]
    simp
  have hbares : (g.tensors.modify id.index onTensor).map Tensor.bare = g.tensors.map Tensor.bare :=
    map_modify_of_eq hbare _ _
  have hnames : (g.tensors.modify id.index onTensor).map Tensor.name = g.tensors.map Tensor.name :=
    map_modify_of_eq (fun t => by simpa using congrArg Tensor.name (hbare t)) _ _
  have hkeeps : g.Keeps { g with
      tensors := g.tensors.modify id.index onTensor
      ops := g.ops.modify g₀.ops.length onOp } := keeps_of_names hnames
  obtain ⟨inputs', outputs', hcur, hins', houts'⟩ := hcurrent inputs outputs hins houts
  refine ⟨_, (Step.run_bind_of_ok (run_changeTensor hid _)).trans (run_changeOp (g := { g with
      tensors := g.tensors.modify id.index onTensor }) hop _),
    hkeeps id name hname, hbares, ?_, h.named.of_names hnames rfl, hwired hid hop,
    ⟨inputs', outputs', ?_, hkeeps.map_nameOf? hins', hkeeps.map_nameOf? houts'⟩, h.order,
    h.created, h.keeps.trans hkeeps⟩
  · rw [bares, hbares]
    exact h.registry
  · dsimp only
    rw [hops, modify_concat, hcur]

/-- A tensor becomes the next input of the operator. -/
theorem attachInput (h : Reading s g₀ index kind requests shapes ins outs g) {id : TensorId}
    {name : String} (hname : g.nameOf? id = some name) :
    ∃ g', (changeTensor id (·.addConsumer ⟨g₀.ops.length⟩) >>= fun _ =>
        changeOp ⟨g₀.ops.length⟩ (·.addInput id)) g = .ok () g' ∧
      g'.nameOf? id = some name ∧ g'.bares = g.bares ∧
      Reading s g₀ index kind requests shapes (ins ++ [name]) outs g' :=
  h.attached hname (fun _ => rfl) (fun hid hop => h.wired.attachInput hid hop)
    fun inputs outputs hins houts =>
      ⟨inputs ++ [id], outputs, rfl, by simp [hins, hname], houts⟩

/-- A tensor becomes the next output of the operator. -/
theorem attachOutput (h : Reading s g₀ index kind requests shapes ins outs g) {id : TensorId}
    {name : String} (hname : g.nameOf? id = some name) :
    ∃ g', (changeTensor id (·.addProducer ⟨g₀.ops.length⟩) >>= fun _ =>
        changeOp ⟨g₀.ops.length⟩ (·.addOutput id)) g = .ok () g' ∧
      g'.nameOf? id = some name ∧ g'.bares = g.bares ∧
      Reading s g₀ index kind requests shapes ins (outs ++ [name]) g' :=
  h.attached hname (fun _ => rfl) (fun hid hop => h.wired.attachOutput hid hop)
    fun inputs outputs hins houts =>
      ⟨inputs, outputs ++ [id], rfl, hins, by simp [houts, hname]⟩

/-- What is left when an operand of a name is taken, with a layout asked for.
The rank of a new tensor is for the caller to check. -/
def Took (s : Scope) (g₀ : Graph) (index : Nat) (kind : Kind) (requests : List Request)
    (shapes : List String) (ins outs : List String) (g : Graph) (name : String)
    (layout : Option Layout) (id : TensorId) (g' : Graph) : Prop :=
  g'.nameOf? id = some name ∧
    Reading s g₀ index kind (requests ++ [(name, layout)]) shapes ins outs g' ∧
    (g.Ranked s → (∀ t l, g'.bares[id.index]? = some t → layout = some l → t.rank = l.rank) →
      g'.Ranked s)

theorem takeInput_ends (h : Reading s g₀ index kind requests shapes ins outs g)
    {decl : Source.OperatorDecl} (hdecl : s.subgraph.operators[index]? = some decl) (slot : Nat)
    (hslot : slot < decl.inputs.length) (layout : Option Layout) (constant : Bool) :
    Step.Ends Fault.FromInput
      (fun id g' => ∃ name, s.nameIn? decl.inputs slot = some name ∧
        Took s g₀ index kind requests shapes (ins ++ [name]) outs g name layout id g')
      (takeInput s ⟨g₀.ops.length⟩ slot layout constant g) := by
  unfold takeInput
  rw [Step.run_bind_of_ok (h.run_declaration hdecl)]
  dsimp only
  have hi := List.getElem?_eq_getElem hslot
  rw [entryAt_of_getElem? hi, Step.run_bind_of_ok (Step.run_liftViolation_ok _ _)]
  refine (requestParsed_ends h.registry h.named _ layout constant).bind fun id g₁ hr => ?_
  obtain ⟨name, hname, hid, h₁, hranked⟩ := h.requested hr
  obtain ⟨g₂, hrun, hid₂, hbares, h₂⟩ := h₁.attachInput hid
  rw [← bind_assoc, Step.run_bind_of_ok hrun]
  refine ⟨name, by rw [Scope.nameIn?, hi, Option.bind_some, hname], hid₂, h₂, fun hg hcheck => ?_⟩
  rw [Ranked, hbares]
  exact hranked hg (hbares ▸ hcheck)

theorem takeOutput_ends (h : Reading s g₀ index kind requests shapes ins outs g)
    {decl : Source.OperatorDecl} (hdecl : s.subgraph.operators[index]? = some decl) (slot : Nat)
    (hslot : slot < decl.outputs.length) (layout : Option Layout) :
    Step.Ends Fault.FromInput
      (fun id g' => ∃ name, s.nameIn? decl.outputs slot = some name ∧
        Took s g₀ index kind requests shapes ins (outs ++ [name]) g name layout id g')
      (takeOutput s ⟨g₀.ops.length⟩ slot layout g) := by
  unfold takeOutput
  rw [Step.run_bind_of_ok (h.run_declaration hdecl)]
  dsimp only
  have hi := List.getElem?_eq_getElem hslot
  rw [entryAt_of_getElem? hi, Step.run_bind_of_ok (Step.run_liftViolation_ok _ _)]
  refine (requestParsed_ends h.registry h.named _ layout false).bind fun id g₁ hr => ?_
  obtain ⟨name, hname, hid, h₁, hranked⟩ := h.requested hr
  obtain ⟨g₂, hrun, hid₂, hbares, h₂⟩ := h₁.attachOutput hid
  rw [← bind_assoc, Step.run_bind_of_ok hrun]
  refine ⟨name, by rw [Scope.nameIn?, hi, Option.bind_some, hname], hid₂, h₂, fun hg hcheck => ?_⟩
  rw [Ranked, hbares]
  exact hranked hg (hbares ▸ hcheck)

end Reading

/-- The check of an activation's rank. -/
theorem checkActivationRank_ends {id : TensorId} {name : String} (h : g.nameOf? id = some name) :
    Step.Ends Fault.FromInput
      (fun _ g' => g = g' ∧ ∀ t, g.bares[id.index]? = some t → t.rank = 4)
      (checkActivationRank id g) := by
  obtain ⟨t, ht, -⟩ := Option.map_eq_some_iff.mp h
  rw [checkActivationRank, Step.run_bind_of_ok (run_tensor ht)]
  refine Step.Ends.expect fun hrank => ⟨rfl, fun u hu => ?_⟩
  rw [getElem?_bares ht] at hu
  cases hu
  exact hrank

/-- Only weights of rank four have a kernel. -/
theorem kernelSize_ends {id : TensorId} {name : String} (h : g.nameOf? id = some name) :
    Step.Ends Fault.FromInput
      (fun _ g' => g = g' ∧ ∀ t, g.bares[id.index]? = some t → t.rank = 4)
      (kernelSize id g) := by
  obtain ⟨t, ht, -⟩ := Option.map_eq_some_iff.mp h
  rw [kernelSize, Step.run_bind_of_ok (run_tensor ht)]
  generalize hshape : t.shape = shape
  match shape, hshape with
  | [_, _, _, _], hshape =>
      refine ⟨rfl, fun u hu => ?_⟩
      rw [getElem?_bares ht] at hu
      cases hu
      rw [Tensor.rank, Tensor.bare_shape, hshape]
      rfl
  | [], _ | [_], _ | [_, _], _ | [_, _, _], _ | _ :: _ :: _ :: _ :: _ :: _, _ => exact trivial

end Graph

end Relayout
