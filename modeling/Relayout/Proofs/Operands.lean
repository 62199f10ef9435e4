/-
# Operands by position

A declared operator refers to its operands by position in the subgraph, a call
by name.  Where no two tensors have one name both say the same.
-/
import Relayout.Proofs.Calls
import Relayout.Proofs.Names

namespace Relayout

namespace Scope

variable {s : Scope} {t t' slot : Nat} {name x w y : String} {b shape : Option String}
  {indices : List Int64} {index : Int64} {decl : Source.OperatorDecl} {c : Call}

/-- No two tensors have one name. -/
def Distinct (s : Scope) : Prop := (s.subgraph.tensors.map Source.TensorDecl.name).Nodup

/-- No tensor has a reserved name. -/
def Unreserved (s : Scope) : Prop := ∀ d ∈ s.subgraph.tensors, ¬Reserved d.name

/-- The name of the tensor at a position. -/
def nameOf? (s : Scope) (t : Nat) : Option String :=
  s.subgraph.tensors[t]?.map Source.TensorDecl.name

theorem Distinct.position_eq (h : s.Distinct) (ht : s.nameOf? t = some name)
    (ht' : s.nameOf? t' = some name) : t = t' := by
  unfold nameOf? at ht ht'
  rw [← List.getElem?_map] at ht ht'
  exact (List.getElem?_inj (List.getElem?_eq_some_iff.mp ht).1 h).mp (ht.trans ht'.symm)

theorem Unreserved.not_reserved (h : s.Unreserved) (ht : s.nameOf? t = some name) :
    ¬Reserved name := by
  obtain ⟨d, hd, rfl⟩ := Option.map_eq_some_iff.mp ht
  exact h d (List.mem_of_getElem? hd)

theorem nameAt?_eq (s : Scope) (index : Int64) :
    s.nameAt? index = if 0 ≤ index.toInt then s.nameOf? index.toInt.toNat else none := by
  unfold nameAt? Source.Subgraph.tensor nameOf?
  split <;> rename_i h
  · by_cases h0 : 0 ≤ index.toInt
    · simp only [if_pos h0] at h ⊢
      split at h <;> simp_all
    · simp [h0] at h
  · by_cases h0 : 0 ≤ index.toInt
    · simp only [if_pos h0] at h ⊢
      split at h <;> simp_all
    · simp [h0]

theorem nameIn?_eq (s : Scope) (indices : List Int64) (slot : Nat) :
    s.nameIn? indices slot = (Source.operandAt? indices slot).bind s.nameOf? := by
  unfold nameIn? Source.operandAt?
  cases indices[slot]? with
  | none => rfl
  | some index =>
      rw [Option.bind_some, Option.bind_some, s.nameAt?_eq]
      split <;> rfl

/-- An operand that is left out has no position. -/
theorem optionalIn?_eq_none (hin : s.optionalIn? decl slot = some none) :
    Source.operandAt? decl.inputs slot = none := by
  unfold optionalIn? Graph.hasInput at hin
  unfold Source.operandAt?
  cases hindex : decl.inputs[slot]? with
  | none => rfl
  | some index =>
      rw [hindex] at hin
      dsimp only at hin
      by_cases h0 : 0 ≤ index.toInt
      · rw [if_pos (by simpa using h0)] at hin
        cases hname : s.nameIn? decl.inputs slot <;> rw [hname] at hin <;> cases hin
      · rw [Option.bind_some, if_neg h0]

theorem optionalIn?_eq_some (hin : s.optionalIn? decl slot = some (some name)) :
    s.nameIn? decl.inputs slot = some name := by
  unfold optionalIn? at hin
  split at hin
  · obtain ⟨name', hname, heq⟩ := Option.map_eq_some_iff.mp hin
    cases heq
    exact hname
  · cases hin

/-- The position of an input at the boundary. -/
theorem nameOf?_toNat {index : UInt64} (h : s.nameAt? index.toInt64 = some name) :
    s.nameOf? index.toNat = some name := by
  rw [nameAt?_eq] at h
  split at h
  · rename_i h0
    have hindex : index.toInt64.toInt.toNat = index.toNat := by
      have hbits : index.toInt64.toInt = index.toBitVec.toInt := rfl
      have hlt : index.toNat < 2 ^ 64 := index.toNat_lt
      rw [hbits, BitVec.toInt_eq_toNat_cond, UInt64.toNat_toBitVec] at h0 ⊢
      split at h0 <;> omega
    rwa [hindex] at h
  · cases h

/-! ## Calls -/

theorem call?_eq_conv : s.call? decl = some (.conv x w b y) ↔
    s.model.opcode decl = .conv2d ∧ s.nameIn? decl.inputs 0 = some x ∧
      s.nameIn? decl.inputs 1 = some w ∧ s.optionalIn? decl 2 = some b ∧
      s.soleOutput? decl = some y := by
  unfold call?
  cases s.model.opcode decl <;>
    simp only [Option.pure_def, Option.bind_eq_bind, Option.bind_eq_some_iff, Option.some.injEq,
      Call.conv.injEq, reduceCtorEq, and_false, exists_const, true_and, false_and]
  constructor
  · rintro ⟨_, hx, _, hw, _, hb, _, hy, rfl, rfl, rfl, rfl⟩
    exact ⟨hx, hw, hb, hy⟩
  · rintro ⟨hx, hw, hb, hy⟩
    exact ⟨x, hx, w, hw, b, hb, y, hy, rfl, rfl, rfl, rfl⟩

theorem call?_eq_reshape : s.call? decl = some (.reshape x shape y) ↔
    s.model.opcode decl = .reshape ∧ s.nameIn? decl.inputs 0 = some x ∧
      s.optionalIn? decl 1 = some shape ∧ s.soleOutput? decl = some y := by
  unfold call?
  cases s.model.opcode decl <;>
    simp only [Option.pure_def, Option.bind_eq_bind, Option.bind_eq_some_iff, Option.some.injEq,
      Call.reshape.injEq, reduceCtorEq, and_false, exists_const, true_and, false_and]
  constructor
  · rintro ⟨_, hx, _, hshape, _, hy, rfl, rfl, rfl⟩
    exact ⟨hx, hshape, hy⟩
  · rintro ⟨hx, hshape, hy⟩
    exact ⟨x, hx, shape, hshape, y, hy, rfl, rfl, rfl⟩

theorem soleOutput?_of_call? (h : s.call? decl = some c) : s.soleOutput? decl = some c.output := by
  cases c with
  | conv x w b y => exact (call?_eq_conv.mp h).2.2.2.2
  | reshape x shape y => exact (call?_eq_reshape.mp h).2.2.2

/-- An operator with a call has one output, which the call writes. -/
theorem outputs_of_call? (h : s.call? decl = some c) :
    ∃ index d, decl.outputs = [index] ∧ s.subgraph.tensor index = .ok d ∧ d.name = c.output := by
  have hout := soleOutput?_of_call? h
  unfold soleOutput? at hout
  split at hout
  · rename_i index hindex
    unfold nameAt? at hout
    split at hout
    · exact ⟨index, _, hindex, ‹_›, Option.some.inj hout⟩
    · cases hout
  · cases hout

/-- An operator with a call writes one tensor, the output of the call. -/
theorem operandAt?_output (h : s.call? decl = some c) :
    ∃ t, s.nameOf? t = some c.output ∧
      ∀ slot t', Source.operandAt? decl.outputs slot = some t' ↔ slot = 0 ∧ t' = t := by
  obtain ⟨index, d, hindex, hd, hname⟩ := outputs_of_call? h
  have hout := nameAt?_of_tensor hd
  rw [hname, nameAt?_eq] at hout
  split at hout
  · rename_i h0
    refine ⟨_, hout, fun slot t' => ?_⟩
    unfold Source.operandAt?
    cases slot with
    | zero => simp [hindex, h0, eq_comm]
    | succ slot => simp [hindex]
  · cases hout

/-- What a call reads is an operand, or the vector of its shape. -/
theorem operandAt?_input (h : s.call? decl = some c) (hx : x ∈ c.inputs) :
    (∃ slot t, Source.operandAt? decl.inputs slot = some t ∧ s.nameOf? t = some x) ∨
      x = synthesizedName "Vector" c.output := by
  have hin : ∀ slot, s.nameIn? decl.inputs slot = some x →
      ∃ slot t, Source.operandAt? decl.inputs slot = some t ∧ s.nameOf? t = some x := by
    intro slot hslot
    rw [nameIn?_eq, Option.bind_eq_some_iff] at hslot
    obtain ⟨t, ht, hname⟩ := hslot
    exact ⟨slot, t, ht, hname⟩
  cases c with
  | conv a w b y =>
      obtain ⟨-, ha, hw, hb, -⟩ := call?_eq_conv.mp h
      refine Or.inl ?_
      rcases List.mem_append.mp hx with hx | hx
      · rcases List.mem_cons.mp hx with rfl | hx
        · exact hin 0 ha
        · exact hin 1 (List.mem_singleton.mp hx ▸ hw)
      · rw [Option.mem_toList.mp hx] at hb
        exact hin 2 (optionalIn?_eq_some hb)
  | reshape a shape y =>
      obtain ⟨-, ha, hshape, -⟩ := call?_eq_reshape.mp h
      rcases List.mem_cons.mp hx with rfl | hx
      · exact Or.inl (hin 0 ha)
      · obtain rfl := List.mem_singleton.mp hx
        cases shape with
        | none => exact Or.inr rfl
        | some v => exact Or.inl (hin 1 (optionalIn?_eq_some hshape))

end Scope

end Relayout
