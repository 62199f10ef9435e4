/-
# Calls against the nodes that they are lowered to

A strict scope that was read, and whose lowering passes the checks, has all that
the simulation asks of a call: its names stand for positions of the source, with
the layouts that convolutions ask for, and the transposes around a reshape find
their operands with the dimensions that they permute over.
-/
import Relayout.Proofs.Evaluation.Lowered

namespace Relayout

/-! ## Calls as instructions -/

namespace Scope

variable {s : Scope} {decl : Source.OperatorDecl} {x w y : String} {b shape : Option String}
  {n : Nat}

theorem exists_operand {slot : Nat} (h : s.nameIn? decl.inputs slot = some x) :
    ∃ p, Source.operandAt? decl.inputs slot = some p ∧ s.nameOf? p = some x := by
  rw [nameIn?_eq] at h
  exact Option.bind_eq_some_iff.mp h

theorem exists_output {c : Call} (h : s.call? decl = some c) :
    ∃ q, Source.operandAt? decl.outputs 0 = some q ∧ s.nameOf? q = some c.output := by
  obtain ⟨q, hq, hiff⟩ := operandAt?_output h
  exact ⟨q, (hiff 0 q).mpr ⟨rfl, rfl⟩, hq⟩

theorem nameIn?_of_call? {c : Call} (h : s.call? decl = some c) :
    s.nameIn? decl.outputs 0 = some c.output := by
  obtain ⟨q, hq, hname⟩ := exists_output h
  rw [nameIn?_eq, hq, Option.bind_some, hname]

theorem instruction?_of_reshape (h : s.call? decl = some (.reshape x shape y)) :
    ∃ p q, s.instruction? decl = some (.copy p q) ∧ s.nameOf? p = some x ∧
      s.nameOf? q = some y := by
  obtain ⟨hopcode, hx, -, -⟩ := call?_eq_reshape.mp h
  obtain ⟨p, hp, hpx⟩ := exists_operand hx
  obtain ⟨q, hq, hqy⟩ := exists_output h
  refine ⟨p, q, ?_, hpx, hqy⟩
  rw [instruction?, hopcode]
  simp [hp, hq]

theorem instruction?_of_conv (h : s.call? decl = some (.conv x w b y)) :
    ∃ p r pb q, s.instruction? decl = some (.convolve p r pb q) ∧ s.nameOf? p = some x ∧
      s.nameOf? r = some w ∧ Option.Rel (fun name p => s.nameOf? p = some name) b pb ∧
      s.nameOf? q = some y := by
  obtain ⟨hopcode, hx, hw, hb, -⟩ := call?_eq_conv.mp h
  obtain ⟨p, hp, hpx⟩ := exists_operand hx
  obtain ⟨r, hr, hrw⟩ := exists_operand hw
  obtain ⟨q, hq, hqy⟩ := exists_output h
  refine ⟨p, r, Source.operandAt? decl.inputs 2, q, ?_, hpx, hrw, ?_, hqy⟩
  · rw [instruction?, hopcode]
    simp [hp, hr, hq]
  cases b with
  | none =>
      rw [optionalIn?_eq_none hb]
      exact .none
  | some name =>
      obtain ⟨pb, hpb, hname⟩ := exists_operand (optionalIn?_eq_some hb)
      rw [hpb]
      exact .some hname

/-- How many convolutions there are among the first operators. -/
def convolutionsBefore (s : Scope) (n : Nat) : Nat :=
  ((s.subgraph.operators.take n).filter fun decl => s.model.opcode decl = .conv2d).length

theorem convolutionsBefore_succ (hdecl : s.subgraph.operators[n]? = some decl) :
    s.convolutionsBefore (n + 1) =
      s.convolutionsBefore n + if s.model.opcode decl = .conv2d then 1 else 0 := by
  rw [convolutionsBefore, convolutionsBefore, List.take_add_one, hdecl, List.filter_append,
    List.length_append]
  by_cases h : s.model.opcode decl = .conv2d <;> simp [h]

/-- A convolution is numbered by those before it. -/
theorem convolution?_eq (hdecl : s.subgraph.operators[n]? = some decl)
    (hopcode : s.model.opcode decl = .conv2d) :
    s.convolution? (s.convolutionsBefore n) = s.instruction? decl := by
  obtain ⟨hlt, rfl⟩ := List.getElem?_eq_some_iff.mp hdecl
  have hsplit : s.subgraph.operators = s.subgraph.operators.take n ++
      s.subgraph.operators[n] :: s.subgraph.operators.drop (n + 1) := by
    rw [List.getElem_cons_drop, List.take_append_drop]
  have hfilter : (s.subgraph.operators.filter fun decl => s.model.opcode decl = .conv2d)[
      s.convolutionsBefore n]? = some s.subgraph.operators[n] := by
    have hparts := congrArg (List.filter fun decl => s.model.opcode decl = .conv2d) hsplit
    rw [List.filter_append, List.filter_cons_of_pos (by simpa using hopcode)] at hparts
    rw [hparts, convolutionsBefore, List.getElem?_append_right (Nat.le_refl _), Nat.sub_self]
    rfl
  rw [convolution?, hfilter, Option.bind_some]

/-- A reshape writes as many elements as it reads. -/
def KeepsCounts (s : Scope) : Prop :=
  ∀ decl ∈ s.subgraph.operators, ∀ p q, s.instruction? decl = some (.copy p q) →
    elementCount (s.extentsAt p) = elementCount (s.extentsAt q)

end Scope

theorem Call.turnedBefore_succ {calls : List Call} {n : Nat} {c : Call}
    (hc : calls[n]? = some c) :
    Call.turnedBefore calls (n + 1) = Call.turnedBefore calls n ++ c.turned := by
  rw [turnedBefore, turnedBefore, List.take_add_one, hc, List.flatMap_append]
  simp

namespace Graph

open Target (checkNodes)

variable {s : Scope} {layouts : SortedMap ExplicitLayout} {g : Graph} {title name : String}
  {i p : Nat} {c : Call} {l : Layout} {decl : Source.OperatorDecl}

namespace Lowers

variable (h : Lowers s layouts g)

include h

theorem ne_empty_of_call (hc : s.calls[i]? = some c) (hname : name ∈ c.inputs ∨ name = c.output) :
    name ≠ "" := by
  obtain ⟨id, u, he, rfl⟩ := h.intake.exists_mentioned h.vacant h.clash
    (h.readable.mentions_lowered hc hname _)
  exact (Target.checkTensor_eq_ok.mp (h.tensors _ he)).1

/-- What a call names is written, so it was read under that name. -/
theorem tensor_of_call (hc : s.calls[i]? = some c) (hname : name ∈ c.inputs ∨ name = c.output)
    (hp : s.nameOf? p = some name) : ∃ t ∈ g.tensors, t.name = name := by
  obtain ⟨id, u, he, rfl⟩ := h.intake.exists_mentioned h.vacant h.clash
    (h.readable.mentions_lowered hc hname _)
  have hnode : u.node ∈ (g.loweredGraph u.name).tensors := mem_tensors_of_mentioned he
  obtain ⟨t, ht, htname, -⟩ := h.intake.exists_of_mem_tensors h.unreserved h.clash hnode
    (h.unreserved.not_reserved hp)
  exact ⟨t, ht, htname⟩

theorem placed_of_call (hc : s.calls[i]? = some c) (hname : name ∈ c.inputs ∨ name = c.output)
    (hp : s.nameOf? p = some name) : s.Placed layouts (s.tag layouts) name p := by
  obtain ⟨t, ht, rfl⟩ := h.tensor_of_call hc hname hp
  exact h.placed ht hp

/-- A tensor has the layout that a call asks for. -/
theorem layoutAt_of_call (hc : s.calls[i]? = some c) (hname : name ∈ c.inputs ∨ name = c.output)
    (hp : s.nameOf? p = some name) (hr : (name, some l) ∈ c.requests) :
    s.layoutAt layouts p = some l := by
  obtain ⟨t, ht, rfl⟩ := h.tensor_of_call hc hname hp
  have hmem : (t.name, some l) ∈ s.requests layouts :=
    List.mem_append_left _ (List.mem_append_left _ (List.mem_append_right _
      (List.mem_flatMap.mpr ⟨c, List.mem_of_getElem? hc, hr⟩)))
  rw [← (h.placed_of_call hc hname hp).tagged, h.intake.tag_eq ht]
  exact h.intake.granted h.strict ht hmem

end Lowers

section Step

variable (h : Lowers s layouts g) {n : Nat} {x w y : String} {b shape : Option String}
  {defined defined' seen : List String} {m : Memory Nat} {m' : Memory String}
  {F G : Nat → Kernel}

include h

/-- A reshape of the source against its block. -/
theorem Lowers.simulates_reshape (hcounts : s.KeepsCounts)
    (hdecl : s.subgraph.operators[n]? = some decl)
    (hcall : s.call? decl = some (.reshape x shape y))
    (hc : s.calls[n]? = some (.reshape x shape y))
    (hsim : Simulates s layouts (s.tag layouts) seen defined m m') {o : Operator}
    (hstands : g.Stands n (.reshape x shape y) o)
    (hcheck : checkNodes defined ((Call.reshape x shape y).block (s.tag layouts) seen
      (g.nodeOf o)) = .ok defined') :
    ∃ m₁ m₁', s.execute? F m decl = some m₁ ∧
      ((Call.reshape x shape y).block (s.tag layouts) seen (g.nodeOf o)).foldlM
        ((g.loweredGraph title).execute? G) m' = some m₁' ∧
      m₁.convolved = m.convolved ∧
      Simulates s layouts (s.tag layouts) (seen ++ [x]) defined' m₁ m₁' := by
  obtain ⟨p, q, hinstruction, hpx, hqy⟩ := Scope.instruction?_of_reshape hcall
  obtain ⟨-, -, -, tx, ty, -, -, -, -, rfl, -, -, rfl, hreshapes⟩ :=
    h.readable.reshapes_of_call hc
  have hmem : tx.name ∈ (Call.reshape tx.name shape ty.name).inputs := List.mem_cons_self
  have hin : (g.nodeOf o).inputs =
      [tx.name, shape.getD (synthesizedName "Vector" ty.name)] := hstands.filterMap_inputs
  have htype : (g.nodeOf o).opType = "Reshape" := congrArg Kind.name hstands.kind
  rw [Scope.execute?, hinstruction, Option.bind_some]
  refine hsim.reshape h.distinct h.unreserved (h.placed_of_call hc (Or.inl hmem) hpx)
    (h.placed_of_call hc (Or.inr rfl) hqy) (h.ne_empty_of_call hc (Or.inl hmem))
    (hcounts decl (List.mem_of_getElem? hdecl) p q hinstruction) (fun l hl => ?_) (fun l hl => ?_)
    htype hin hstands.filterMap_outputs hcheck
  · rw [h.intake.tag_eq hreshapes.mem_left] at hl
    exact h.extents?_operand hreshapes hpx hl
      (h.readable.mentions_lowered hc (Or.inl hmem) _)
  · have hmention := h.readable.mentions_written hc hl
      (s.boundary s.subgraph.inputs)
    rw [h.intake.tag_eq hreshapes.mem_right] at hl
    exact h.extents?_written hreshapes hqy hl hmention

/-- A convolution of the source against its block. -/
theorem Lowers.simulates_conv (hcarries : s.Carries layouts F G)
    (hdecl : s.subgraph.operators[n]? = some decl) (hcall : s.call? decl = some (.conv x w b y))
    (hc : s.calls[n]? = some (.conv x w b y)) (hm : m.convolved = s.convolutionsBefore n)
    (hsim : Simulates s layouts (s.tag layouts) seen defined m m') {o : Operator}
    (hstands : g.Stands n (.conv x w b y) o)
    (hcheck : checkNodes defined ((Call.conv x w b y).block (s.tag layouts) seen (g.nodeOf o)) =
      .ok defined') :
    ∃ m₁ m₁', s.execute? F m decl = some m₁ ∧
      ((Call.conv x w b y).block (s.tag layouts) seen (g.nodeOf o)).foldlM
        ((g.loweredGraph title).execute? G) m' = some m₁' ∧
      m₁.convolved = m.convolved + 1 ∧
      Simulates s layouts (s.tag layouts) seen defined' m₁ m₁' := by
  obtain ⟨p, r, pb, q, hinstruction, hpx, hrw, hpb, hqy⟩ := Scope.instruction?_of_conv hcall
  have hx : x ∈ (Call.conv x w b y).inputs := by simp [Call.inputs]
  have hw : w ∈ (Call.conv x w b y).inputs := by simp [Call.inputs]
  have hb : ∀ name ∈ b, name ∈ (Call.conv x w b y).inputs := fun name hname => by
    simp [Call.inputs, Option.mem_def.mp hname]
  have hbias : Option.Rel (s.Placed layouts (s.tag layouts)) b pb := by
    cases hpb with
    | none => exact .none
    | some hname => exact .some (h.placed_of_call hc (Or.inl (hb _ rfl)) hname)
  have htype : (g.nodeOf o).opType = "Conv" := by
    obtain ⟨c, hkind⟩ := hstands.kind
    exact congrArg Kind.name hkind
  have hnumber : s.convolution? m.convolved = some (.convolve p r pb q) := by
    rw [hm, Scope.convolution?_eq hdecl (Scope.call?_eq_conv.mp hcall).1, hinstruction]
  rw [Scope.execute?, hinstruction, Option.bind_some]
  exact hsim.conv h.distinct h.unreserved (h.placed_of_call hc (Or.inl hx) hpx)
    (h.placed_of_call hc (Or.inl hw) hrw) hbias (h.placed_of_call hc (Or.inr rfl) hqy)
    (fun name hname => h.ne_empty_of_call hc (Or.inl hname))
    (h.layoutAt_of_call hc (Or.inl hx) hpx (by simp [Call.requests]))
    (h.layoutAt_of_call hc (Or.inl hw) hrw (by simp [Call.requests]))
    (h.layoutAt_of_call hc (Or.inr rfl) hqy (by simp [Call.requests, Call.output])) hcarries hnumber
    htype hstands.filterMap_inputs hstands.filterMap_outputs hcheck

/-- The next operator of the source against the nodes that it is lowered to. -/
theorem Lowers.simulates_call (hcounts : s.KeepsCounts) (hcarries : s.Carries layouts F G)
    (hdecl : s.subgraph.operators[n]? = some decl) (hm : m.convolved = s.convolutionsBefore n)
    (hsim : Simulates s layouts (s.tag layouts) (Call.turnedBefore s.calls n) defined m m')
    (hcheck : checkNodes defined (g.loweredAt s.calls (s.tag layouts) n) = .ok defined') :
    ∃ m₁ m₁', s.execute? F m decl = some m₁ ∧
      (g.loweredAt s.calls (s.tag layouts) n).foldlM ((g.loweredGraph title).execute? G) m' =
        some m₁' ∧
      m₁.convolved = s.convolutionsBefore (n + 1) ∧
      Simulates s layouts (s.tag layouts) (Call.turnedBefore s.calls (n + 1)) defined' m₁ m₁' := by
  obtain ⟨c, -, hcall, hc, -⟩ := h.intake.call_at hdecl
  obtain ⟨o, hstands, hblock⟩ := h.readable.loweredAt_eq hc
  rw [hblock] at hcheck ⊢
  rw [Call.turnedBefore_succ hc, Scope.convolutionsBefore_succ hdecl, ← hm]
  cases c with
  | conv x w b y =>
      rw [if_pos (Scope.call?_eq_conv.mp hcall).1, Call.turned, List.append_nil]
      exact h.simulates_conv hcarries hdecl hcall hc hm hsim hstands hcheck
  | reshape x shape y =>
      rw [if_neg (by simp [(Scope.call?_eq_reshape.mp hcall).1]), Nat.add_zero]
      exact h.simulates_reshape hcounts hdecl hcall hc hsim hstands hcheck

end Step

end Graph

end Relayout
