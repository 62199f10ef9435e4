/-
# What a written graph mentions

An operator has no more inputs than its kind takes, so every tensor that a
source refers to is one that some call or the boundary names.  Lowering drops
none of these names: an input that a reshape reads in its other form is still
read, by the transpose in front of the first such reshape.
-/
import Relayout.Proofs.Graph.Origins
import Relayout.Proofs.Violations

namespace Relayout

namespace Scope

variable {s : Scope} {p slot : Nat} {decl : Source.OperatorDecl} {c : Call}

/-- An operator has no more inputs than its kind takes. -/
def Fits (s : Scope) (decl : Source.OperatorDecl) : Prop :=
  (s.model.opcode decl = .conv2d → decl.inputs.length ≤ 3) ∧
    (s.model.opcode decl = .reshape → decl.inputs.length ≤ 2)

/-- The source refers to the tensor at a position: an operator does, or the
boundary. -/
def Refers (s : Scope) (p : Nat) : Prop :=
  (∃ decl ∈ s.subgraph.operators, ∃ slot, Source.operandAt? decl.inputs slot = some p ∨
      Source.operandAt? decl.outputs slot = some p) ∨
    ∃ index ∈ s.subgraph.inputs ++ s.subgraph.outputs, index.toNat = p

/-- An operand that fits is an input of the call. -/
theorem mem_inputs_of_operandAt? (h : s.call? decl = some c) (hfits : s.Fits decl)
    (hp : Source.operandAt? decl.inputs slot = some p) :
    ∃ name ∈ c.inputs, s.nameOf? p = some name := by
  have hname : ∀ name, s.nameIn? decl.inputs slot = some name → s.nameOf? p = some name := by
    intro name hin
    rwa [nameIn?_eq, hp, Option.bind_some] at hin
  have hoptional : ∀ b, s.optionalIn? decl slot = some b → ∃ name ∈ b, s.nameOf? p = some name := by
    rintro (_ | name) hb
    · rw [optionalIn?_eq_none hb] at hp
      cases hp
    · exact ⟨name, rfl, hname name (optionalIn?_eq_some hb)⟩
  have hslot : slot < decl.inputs.length := by
    obtain ⟨index, hindex, -⟩ := Option.bind_eq_some_iff.mp hp
    exact (List.getElem?_eq_some_iff.mp hindex).1
  cases c with
  | conv x w b y =>
      obtain ⟨hopcode, hx, hw, hb, -⟩ := call?_eq_conv.mp h
      have hlength := hfits.1 hopcode
      obtain rfl | rfl | rfl : slot = 0 ∨ slot = 1 ∨ slot = 2 := by omega
      · exact ⟨x, by simp [Call.inputs], hname x hx⟩
      · exact ⟨w, by simp [Call.inputs], hname w hw⟩
      · obtain ⟨name, hmem, hn⟩ := hoptional b hb
        obtain rfl := Option.mem_def.mp hmem
        exact ⟨name, by simp [Call.inputs], hn⟩
  | reshape x shape y =>
      obtain ⟨hopcode, hx, hshape, -⟩ := call?_eq_reshape.mp h
      have hlength := hfits.2 hopcode
      obtain rfl | rfl : slot = 0 ∨ slot = 1 := by omega
      · exact ⟨x, by simp [Call.inputs], hname x hx⟩
      · obtain ⟨name, hmem, hn⟩ := hoptional shape hshape
        obtain rfl := Option.mem_def.mp hmem
        exact ⟨name, by simp [Call.inputs], hn⟩

end Scope

namespace Graph

variable {s : Scope} {layouts : SortedMap ExplicitLayout} {g g' k : Graph} {name title : String}
  {index p : Nat} {decl : Source.OperatorDecl} {calls : List Call} {tag : String → Option Layout}
  {c : Call} {i : Nat} {id : TensorId} {u : Tensor} {order : List OpId}

/-! ## Operand counts -/

/-- An operator is read only if its operands fit. -/
theorem fits_of_parseOp {op : OpId} {kind : Kind}
    (hop : g.ops[op.index]? = some (.fresh (some index) "" kind))
    (hkind : Kind.ofOpcode (s.model.opcode decl) = .ok kind)
    (hdecl : s.subgraph.operators[index]? = some decl) (hrun : parseOp s op g = .ok () g') :
    s.Fits decl := by
  have hsource : declaration s op g = .ok (index, decl) g := by
    rw [declaration, Step.run_bind_of_ok (run_op hop)]
    dsimp only [Operator.fresh]
    rw [entryAt_of_getElem? hdecl]
    rfl
  rw [parseOp, Step.run_bind_of_ok (run_op hop), if_neg (by simp [Operator.fresh,
    Status.isParsed, Status.stage])] at hrun
  cases hopcode : s.model.opcode decl with
  | conv2d =>
      rw [hopcode] at hkind
      cases hkind
      have hrun : parseConv s op g = .ok () g' := hrun
      rw [parseConv, Step.run_bind_of_ok hsource] at hrun
      dsimp only at hrun
      rw [Step.run_bind_of_ok (Step.run_require hopcode _ _)] at hrun
      obtain ⟨_, _, hcheck, -⟩ := Step.bind_eq_ok.mp hrun
      refine ⟨fun _ => (checkArity_ok (Step.lift_eq_ok.mp hcheck).1).2, fun h => ?_⟩
      rw [hopcode] at h
      cases h
  | reshape =>
      rw [hopcode] at hkind
      cases hkind
      have hrun : parseReshape s op g = .ok () g' := hrun
      rw [parseReshape, Step.run_bind_of_ok hsource] at hrun
      dsimp only at hrun
      rw [Step.run_bind_of_ok (Step.run_require hopcode _ _)] at hrun
      obtain ⟨_, _, hcheck, -⟩ := Step.bind_eq_ok.mp hrun
      refine ⟨fun h => ?_, fun _ => (checkArity_ok (Step.lift_eq_ok.mp hcheck).1).2⟩
      rw [hopcode] at h
      cases h
  | other code =>
      rw [hopcode] at hkind
      cases hkind

theorem fits_of_takeOp (hdecl : s.subgraph.operators[index]? = some decl)
    (hrun : takeOp s index decl g = .ok () g') : s.Fits decl := by
  unfold takeOp at hrun
  obtain ⟨kind, _, hlift, hrun⟩ := Step.bind_eq_ok.mp hrun
  obtain ⟨hkind, rfl⟩ := Step.lift_eq_ok.mp hlift
  rw [Step.run_bind_of_ok (run_addOp _ g)] at hrun
  obtain ⟨_, g₂, hparse, -⟩ := Step.bind_eq_ok.mp hrun
  exact fits_of_parseOp (by simp) hkind hdecl hparse

theorem IsIntake.fits (h : IsIntake s layouts g) : ∀ decl ∈ s.subgraph.operators, s.Fits decl := by
  intro decl hmem
  obtain ⟨_, g₁, -, hparse⟩ := Step.bind_eq_ok.mp h
  obtain ⟨_, g₂, hloop, -⟩ := Step.bind_eq_ok.mp hparse
  obtain ⟨i, hi⟩ := List.getElem?_of_mem hmem
  have hat : s.subgraph.operators.zipIdx[i]? = some (decl, i) := by
    rw [List.getElem?_zipIdx, hi]
    simp
  obtain ⟨k, k', hrun⟩ := Step.forM_eq_ok hloop _ (List.mem_of_getElem? hat)
  exact fits_of_takeOp hi hrun

/-- What the source refers to is named by the boundary or by a call. -/
theorem IsIntake.named_of_refers (h : IsIntake s layouts g) (hp : s.Refers p) :
    ∃ name, s.nameOf? p = some name ∧ (name ∈ s.boundary s.subgraph.inputs ∨
      name ∈ s.boundary s.subgraph.outputs ∨
        ∃ (i : Nat) (c : Call), s.calls[i]? = some c ∧ (name ∈ c.inputs ∨ name = c.output)) := by
  have hboundary : ∀ {indices : List UInt64} {index},
      (s.boundary indices).map some = indices.map (fun index => s.nameAt? index.toInt64) →
      index ∈ indices → ∃ name ∈ s.boundary indices, s.nameOf? index.toNat = some name := by
    intro indices index hnamed hindex
    have hmem : s.nameAt? index.toInt64 ∈ (s.boundary indices).map some := by
      rw [hnamed]
      exact List.mem_map_of_mem hindex
    obtain ⟨name, hmem, hname⟩ := List.mem_map.mp hmem
    exact ⟨name, hmem, Scope.nameOf?_toNat hname.symm⟩
  rcases hp with ⟨decl, hdecl, slot, hslot⟩ | ⟨index, hindex, rfl⟩
  · obtain ⟨i, hi⟩ := List.getElem?_of_mem hdecl
    obtain ⟨c, -, hcall, hc, -⟩ := h.intake.call_at hi
    rcases hslot with hin | hout
    · obtain ⟨name, hmem, hname⟩ := Scope.mem_inputs_of_operandAt? hcall (h.fits decl hdecl) hin
      exact ⟨name, hname, Or.inr (Or.inr ⟨i, c, hc, Or.inl hmem⟩)⟩
    · obtain ⟨t, ht, hiff⟩ := Scope.operandAt?_output hcall
      obtain rfl := ((hiff slot p).mp hout).2
      exact ⟨c.output, ht, Or.inr (Or.inr ⟨i, c, hc, Or.inr rfl⟩)⟩
  · rcases List.mem_append.mp hindex with hin | hout
    · obtain ⟨name, hmem, hname⟩ := hboundary h.intake.inputs_named hin
      exact ⟨name, hname, Or.inl hmem⟩
    · obtain ⟨name, hmem, hname⟩ := hboundary h.intake.outputs_named hout
      exact ⟨name, hname, Or.inr (Or.inl hmem)⟩

/-! ## Lowered calls -/

theorem Stands.filterMap_inputs {o : Operator} (h : g.Stands i c o) :
    o.inputs.filterMap g.nameOf? = c.inputs := filterMap_nameOf?_of_map h.inputs

theorem Stands.filterMap_outputs {o : Operator} (h : g.Stands i c o) :
    o.outputs.filterMap g.nameOf? = [c.output] := filterMap_nameOf?_of_map h.map_outputs

theorem Readable.loweredAt_eq (h : g.Readable calls tag) (hc : calls[i]? = some c) :
    ∃ o, g.Stands i c o ∧
      g.loweredAt calls tag i = c.block tag (Call.turnedBefore calls i) (g.nodeOf o) := by
  obtain ⟨o, ho, hstands⟩ := h.stands hc
  exact ⟨o, hstands, by rw [loweredAt, hc, ho]⟩

theorem Readable.mem_lowered (h : g.Readable calls tag) (hc : calls[i]? = some c)
    {node : Target.Node} (hnode : node ∈ g.loweredAt calls tag i) : node ∈ g.lowered calls tag := by
  have hlt : i < g.ops.length := h.length ▸ (List.getElem?_eq_some_iff.mp hc).1
  exact List.mem_flatMap.mpr ⟨i, List.mem_range.mpr hlt, hnode⟩

/-- An input that is read in its other form is read by the transpose in front of
the first reshape that does so. -/
theorem Readable.exists_turn (h : g.Readable calls tag) {x : String} {l : Layout}
    (htag : tag x = some l) (hc : calls[i]? = some c) (hx : x ∈ c.turned) :
    ∃ node ∈ g.lowered calls tag, x ∈ node.inputs := by
  induction i using Nat.strong_induction_on generalizing c with
  | _ i ih =>
    by_cases hseen : x ∈ Call.turnedBefore calls i
    · -- an earlier reshape reads it
      obtain ⟨j, shape, y, hlt, hj⟩ := Call.mem_turnedBefore.mp hseen
      exact ih j hlt hj (List.mem_singleton_self x)
    · cases c with
      | conv a w b y => cases hx
      | reshape a shape y =>
          obtain rfl := List.mem_singleton.mp hx
          obtain ⟨o, -, hblock⟩ := h.loweredAt_eq hc
          refine ⟨turnNode (synthesizedName "Transposed" x) l.inverse.perm x
            (synthesizedName "Transposed" x), h.mem_lowered hc ?_, List.mem_singleton_self x⟩
          rw [hblock, Call.block, turnBefore, htag]
          simp [hseen]

/-- Lowering mentions all that a call does. -/
theorem Readable.mentions_lowered (h : g.Readable calls tag) (hc : calls[i]? = some c)
    (hname : name ∈ c.inputs ∨ name = c.output) (inputs : List String) :
    Mentions inputs (g.lowered calls tag) name := by
  obtain ⟨o, hstands, hblock⟩ := h.loweredAt_eq hc
  have hins : (g.nodeOf o).inputs = c.inputs := hstands.filterMap_inputs
  have houts : (g.nodeOf o).outputs = [c.output] := hstands.filterMap_outputs
  refine Or.inr ?_
  have hown : ∀ node ∈ g.loweredAt calls tag i, name ∈ node.inputs ∨ name ∈ node.outputs →
      ∃ node ∈ g.lowered calls tag, name ∈ node.inputs ∨ name ∈ node.outputs :=
    fun node hnode hmem => ⟨node, h.mem_lowered hc hnode, hmem⟩
  cases c with
  | conv x w b y =>
      refine hown (g.nodeOf o) (by rw [hblock]; exact List.mem_singleton_self _) ?_
      rw [hins, houts]
      exact hname.imp_right List.mem_singleton.mpr
  | reshape x shape y =>
      have hnode : { g.nodeOf o with
          inputs := (g.nodeOf o).inputs.set 0 (readName tag x)
          outputs := (g.nodeOf o).outputs.set 0 (writtenName tag y) } ∈
            g.loweredAt calls tag i := by
        rw [hblock]
        simp [Call.block]
      rcases hname with hmem | hout
      · rcases List.mem_cons.mp hmem with rfl | hmem
        · cases htag : tag name with
          | none =>
              refine hown _ hnode (Or.inl ?_)
              rw [hins, readName, htag]
              exact List.mem_cons_self
          | some l =>
              obtain ⟨node, hturn, hx⟩ := h.exists_turn htag hc (List.mem_singleton_self _)
              exact ⟨node, hturn, Or.inl hx⟩
        · refine hown _ hnode (Or.inl ?_)
          rw [hins]
          exact List.mem_cons_of_mem _ hmem
      · obtain rfl : name = y := hout
        cases htag : tag name with
        | none =>
            refine hown _ hnode (Or.inr ?_)
            rw [houts, writtenName, Call.output, htag]
            exact List.mem_singleton_self name
        | some l =>
            refine hown (turnNode (synthesizedName "Transpose" name) l.perm
              (synthesizedName "ToTranspose" name) name) ?_ (Or.inr (List.mem_singleton_self name))
            rw [hblock, Call.block, turnAfter, htag]
            simp

/-- What a reshape writes for the transpose behind it is mentioned. -/
theorem Readable.mentions_written (h : g.Readable calls tag) {x y : String}
    {shape : Option String} {l : Layout}
    (hc : calls[i]? = some (.reshape x shape y)) (hl : tag y = some l) (inputs : List String) :
    Mentions inputs (g.lowered calls tag) (synthesizedName "ToTranspose" y) := by
  obtain ⟨o, -, hblock⟩ := h.loweredAt_eq hc
  refine Or.inr ⟨turnNode (synthesizedName "Transpose" y) l.perm
    (synthesizedName "ToTranspose" y) y, h.mem_lowered hc ?_, Or.inl (List.mem_singleton_self _)⟩
  rw [hblock, Call.block, turnAfter, hl]
  simp

/-! ## Written tensors -/

/-- What the boundary or a node mentions is written, in some role. -/
theorem mem_tensors_of_mentioned (h : (id, u) ∈ k.mentioned order) :
    u.node ∈ (k.targetOf title order).tensors := by
  have hentry : ∀ r, k.role id u.node = r → u.node ∈ inRole r ((k.mentioned order).map fun e =>
      (k.role e.1 e.2.node, e.2.node)) := by
    rintro r rfl
    exact mem_inRole.mpr (List.mem_map.mpr ⟨(id, u), h, rfl⟩)
  have hmem : ∀ r, k.role id u.node = r → r ≠ .output →
      u.node ∈ (k.targetOf title order).tensors := by
    intro r hr hout
    have := hentry r hr
    simp only [Target.Graph.tensors, targetOf, List.mem_append]
    cases r with
    | initializer => exact Or.inl (Or.inl (Or.inl this))
    | input => exact Or.inl (Or.inl (Or.inr this))
    | output => exact absurd rfl hout
    | value => exact Or.inr this
  by_cases hout : k.role id u.node = .output
  · -- an output stands among the outputs, whatever mentions it
    have hid : id ∈ k.outputs := by
      unfold role at hout
      repeat' split at hout
      all_goals simp_all
    obtain ⟨id', -, hlocated⟩ := List.mem_filterMap.mp h
    obtain ⟨rfl, -⟩ := mem_of_located? hlocated
    simp only [Target.Graph.tensors, targetOf, List.mem_append]
    exact Or.inl (Or.inr (List.mem_map.mpr
      ⟨(id, u), List.mem_filterMap.mpr ⟨id, hid, hlocated⟩, rfl⟩))
  · exact hmem _ rfl hout

theorem mem_outputs_targetOf (hid : id ∈ k.outputs) (hu : k.tensors[id.index]? = some u) :
    u.node ∈ (k.targetOf title order).outputs := by
  have hlocated : k.located? id = some (id, u) := by rw [located?, hu, Option.map_some]
  exact List.mem_map.mpr ⟨(id, u), List.mem_filterMap.mpr ⟨id, hid, hlocated⟩, rfl⟩

theorem mem_tensors_of_outputs (hid : id ∈ k.outputs) (hu : k.tensors[id.index]? = some u) :
    u.node ∈ (k.targetOf title order).tensors := by
  simp only [Target.Graph.tensors, List.mem_append]
  exact Or.inl (Or.inr (mem_outputs_targetOf hid hu))

/-- What the boundary or a node mentions is a tensor of the adapted graph. -/
theorem Intake.exists_mentioned (h : Intake s layouts g) (hvacant : g.Vacant)
    (hclash : ¬g.Clash)
    (hname : Mentions (s.boundary s.subgraph.inputs) (g.lowered s.calls (s.tag layouts)) name) :
    ∃ id u, (id, u) ∈ g.adapted.mentioned g.loweredOrder ∧ u.name = name := by
  rw [← h.adapted_inputs, ← h.nodesAt_loweredOrder hvacant hclash] at hname
  exact (h.adapted_named hclash).exists_mentioned hname

/-- Where splices find their names vacant, all that a source refers to is written
under its name. -/
theorem IsIntake.exists_written (h : IsIntake s layouts g) (hvacant : g.Vacant)
    (hclash : ¬g.Clash) (hp : s.Refers p) (title : String) :
    ∃ name, s.nameOf? p = some name ∧ ∃ node ∈ (g.loweredGraph title).tensors,
      node.name = name := by
  have hI := h.intake
  obtain ⟨name, hname, hplace⟩ := h.named_of_refers hp
  refine ⟨name, hname, ?_⟩
  have hmention : Mentions (s.boundary s.subgraph.inputs) (g.lowered s.calls (s.tag layouts)) name →
      ∃ node ∈ (g.loweredGraph title).tensors, node.name = name := by
    intro hmention
    obtain ⟨id, u, he, rfl⟩ := hI.exists_mentioned hvacant hclash hmention
    exact ⟨u.node, mem_tensors_of_mentioned he, rfl⟩
  -- outputs are written as such, whether or not a node mentions them
  rcases hplace with hin | hout | ⟨i, c, hc, hmem⟩
  · exact hmention (Or.inl hin)
  · rw [← hI.adapted_outputs] at hout
    obtain ⟨id, hid, heq⟩ := List.mem_filterMap.mp hout
    obtain ⟨u, hu, rfl⟩ := Option.map_eq_some_iff.mp heq
    exact ⟨u.node, mem_tensors_of_outputs hid hu, rfl⟩
  · exact hmention (hI.readable.mentions_lowered hc hmem _)

end Graph

end Relayout
