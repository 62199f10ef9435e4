/-
# What passes the checks

The checks of a converted graph, as statements about what they let through.  A
list of nodes is checked from some defined names on, and leaves more of them
behind; the nodes of this library write one value each.
-/
import Mathlib.Algebra.Ring.Nat
import Relayout.Proofs.Layout.Position
import Relayout.Proofs.Step
import Relayout.Target.Check

namespace Relayout.Target

variable {defined defined' : List String} {n : Node} {rest : List Node} {t : TensorNode}

/-! ## Tensors -/

theorem checkData_eq_ok {data : Buffer} : checkData t data = .ok () ↔
    data.elementType = t.elementType ∧ (data.length : Int) = dimsCount t.dims := by
  unfold checkData
  split
  · rename_i hne
    simp [hne]
  · rename_i heq
    split
    · rename_i hne
      simp [hne]
    · rename_i hcount
      exact iff_of_true rfl ⟨Classical.not_not.mp heq, Classical.not_not.mp hcount⟩

theorem checkTensor_eq_ok : checkTensor t = .ok () ↔
    t.name ≠ "" ∧ (∀ d ∈ t.dims, 0 ≤ d.toInt) ∧
      ∀ b, t.data = some b → b.elementType = t.elementType ∧
        (b.length : Int) = dimsCount t.dims := by
  unfold checkTensor
  split
  · rename_i hname
    simp [hname]
  · rename_i hname
    split
    · rename_i d hd
      have hneg : d.toInt < 0 := by simpa using List.find?_some hd
      refine iff_of_false (by simp) fun h => ?_
      have := h.2.1 d (List.mem_of_find?_eq_some hd)
      omega
    · rename_i hnone
      have hdims : ∀ d ∈ t.dims, 0 ≤ d.toInt := fun d hd => by
        simpa using List.find?_eq_none.mp hnone d hd
      cases hdata : t.data with
      | none => simpa [hname] using hdims
      | some b => simpa [hname, checkData_eq_ok] using fun _ _ => hdims

theorem dimsCount_map {shape : List Nat} (h : ∀ d ∈ shape, d < 2 ^ 63) :
    dimsCount (shape.map Int64.ofNat) = elementCount shape := by
  induction shape with
  | nil => rfl
  | cons d shape ih =>
      have ih := ih fun e he => h e (List.mem_cons_of_mem _ he)
      rw [List.map_cons, elementCount_cons, dimsCount, List.foldr_cons,
        Int64.toInt_ofNat_of_lt (h d List.mem_cons_self)]
      rw [dimsCount] at ih
      rw [ih, Int.natCast_mul]

/-! ## Nodes -/

theorem checkNode_eq_ok : checkNode n = .ok () ↔
    n.opType ≠ "" ∧ n.outputs ≠ [] ∧ "" ∉ n.outputs := by
  unfold checkNode
  split
  · rename_i h
    simp [h]
  · rename_i h
    split
    · rename_i hout
      refine iff_of_false (by simp) fun h' => ?_
      exact hout.elim h'.2.1 h'.2.2
    · rename_i hout
      rw [not_or] at hout
      exact iff_of_true rfl ⟨h, hout.1, hout.2⟩

theorem checkInputs_eq_ok : checkInputs defined n = .ok () ↔
    ∀ x ∈ n.inputs, x ≠ "" → x ∈ defined := by
  unfold checkInputs
  split
  · rename_i x hx
    have hbad : x ≠ "" ∧ x ∉ defined := by simpa using List.find?_some hx
    exact iff_of_false (by simp) fun h =>
      hbad.2 (h x (List.mem_of_find?_eq_some hx) hbad.1)
  · rename_i hnone
    refine iff_of_true rfl fun x hx hne => ?_
    have := List.find?_eq_none.mp hnone x hx
    simpa [hne] using this

/-- A node that writes one value reads what is defined, and defines what is
not. -/
theorem checkNodes_cons {y : String} (hout : n.outputs = [y]) :
    checkNodes defined (n :: rest) = .ok defined' ↔
      n.opType ≠ "" ∧ y ≠ "" ∧ (∀ x ∈ n.inputs, x ≠ "" → x ∈ defined) ∧ y ∉ defined ∧
        checkNodes (y :: defined) rest = .ok defined' := by
  have hdefine : defineOutputs n defined n.outputs =
      if y ∈ defined then .error (.validation n.name (.redefinedOutput y))
      else .ok (y :: defined) := by
    rw [hout, defineOutputs, defineOutputs]
  have hnode : checkNode n = .ok () ↔ n.opType ≠ "" ∧ y ≠ "" := by
    rw [checkNode_eq_ok, hout, List.mem_singleton]
    exact ⟨fun h => ⟨h.1, Ne.symm h.2.2⟩, fun h => ⟨h.1, List.cons_ne_nil _ _, Ne.symm h.2⟩⟩
  simp only [checkNodes, hdefine, bind_eq_ok]
  constructor
  · rintro ⟨u, hn, u', hin, d, hd, hrest⟩
    split at hd
    · cases hd
    · rename_i hnew
      cases hd
      exact ⟨(hnode.mp hn).1, (hnode.mp hn).2, checkInputs_eq_ok.mp hin, hnew, hrest⟩
  · rintro ⟨htype, hy, hin, hnew, hrest⟩
    exact ⟨(), hnode.mpr ⟨htype, hy⟩, (), checkInputs_eq_ok.mpr hin, y :: defined,
      by rw [if_neg hnew], hrest⟩

theorem checkNodes_append (ns ms : List Node) :
    checkNodes defined (ns ++ ms) = checkNodes defined ns >>= (checkNodes · ms) := by
  induction ns generalizing defined with
  | nil => rfl
  | cons n ns ih =>
      simp only [List.cons_append, checkNodes, bind_assoc, ih]

theorem checkNode_of_checkNodes {nodes : List Node} (h : checkNodes defined nodes = .ok defined') :
    ∀ n ∈ nodes, checkNode n = .ok () := by
  induction nodes generalizing defined with
  | nil => simp
  | cons n nodes ih =>
      rw [checkNodes] at h
      obtain ⟨_, hn, h⟩ := bind_eq_ok.mp h
      obtain ⟨_, -, h⟩ := bind_eq_ok.mp h
      obtain ⟨_, -, h⟩ := bind_eq_ok.mp h
      exact List.forall_mem_cons.mpr ⟨hn, ih h⟩

theorem mem_of_defineOutputs {outputs : List String}
    (h : defineOutputs n defined outputs = .ok defined') :
    (∀ x ∈ defined, x ∈ defined') ∧ ∀ x ∈ outputs, x ∈ defined' := by
  induction outputs generalizing defined with
  | nil =>
      cases h
      exact ⟨fun _ hx => hx, by simp⟩
  | cons y outputs ih =>
      rw [defineOutputs] at h
      split at h
      · cases h
      · obtain ⟨hdefined, houtputs⟩ := ih h
        exact ⟨fun x hx => hdefined x (List.mem_cons_of_mem _ hx),
          List.forall_mem_cons.mpr ⟨hdefined y List.mem_cons_self, houtputs⟩⟩

/-- Once nodes have run, all that they read or wrote is defined. -/
theorem mem_of_checkNodes {nodes : List Node} (h : checkNodes defined nodes = .ok defined') :
    (∀ x ∈ defined, x ∈ defined') ∧ ∀ n ∈ nodes,
      (∀ x ∈ n.inputs, x ≠ "" → x ∈ defined') ∧ ∀ x ∈ n.outputs, x ∈ defined' := by
  induction nodes generalizing defined with
  | nil =>
      cases h
      exact ⟨fun _ hx => hx, by simp⟩
  | cons n nodes ih =>
      rw [checkNodes] at h
      obtain ⟨_, -, h⟩ := bind_eq_ok.mp h
      obtain ⟨_, hin, h⟩ := bind_eq_ok.mp h
      obtain ⟨_, hout, h⟩ := bind_eq_ok.mp h
      obtain ⟨hkeep, hwritten⟩ := mem_of_defineOutputs hout
      obtain ⟨hdefined, hrest⟩ := ih h
      refine ⟨fun x hx => hdefined x (hkeep x hx), List.forall_mem_cons.mpr ⟨⟨?_, ?_⟩, hrest⟩⟩
      · exact fun x hx hne => hdefined x (hkeep x (checkInputs_eq_ok.mp hin x hx hne))
      · exact fun x hx => hdefined x (hwritten x hx)

theorem fresh_of_defineOutputs {outputs : List String}
    (h : defineOutputs n defined outputs = .ok defined') :
    outputs.Nodup ∧ ∀ x ∈ outputs, x ∉ defined := by
  induction outputs generalizing defined with
  | nil => exact ⟨List.nodup_nil, by simp⟩
  | cons y outputs ih =>
      rw [defineOutputs] at h
      split at h
      · cases h
      · rename_i hnew
        obtain ⟨hnodup, hfresh⟩ := ih h
        exact ⟨List.nodup_cons.mpr ⟨fun hy => hfresh y hy List.mem_cons_self, hnodup⟩,
          List.forall_mem_cons.mpr ⟨hnew, fun x hx hdefined =>
            hfresh x hx (List.mem_cons_of_mem _ hdefined)⟩⟩

/-- Nodes that run write every value once, and none that was defined before. -/
theorem fresh_of_checkNodes {nodes : List Node} (h : checkNodes defined nodes = .ok defined') :
    (nodes.flatMap Node.outputs).Nodup ∧ ∀ x ∈ nodes.flatMap Node.outputs, x ∉ defined := by
  induction nodes generalizing defined with
  | nil => exact ⟨List.nodup_nil, by simp⟩
  | cons n nodes ih =>
      rw [checkNodes] at h
      obtain ⟨_, -, h⟩ := bind_eq_ok.mp h
      obtain ⟨_, -, h⟩ := bind_eq_ok.mp h
      obtain ⟨_, hout, h⟩ := bind_eq_ok.mp h
      obtain ⟨hkeep, hwritten⟩ := mem_of_defineOutputs hout
      obtain ⟨hnodup, hfresh⟩ := fresh_of_defineOutputs hout
      obtain ⟨hrest, hlater⟩ := ih h
      rw [List.flatMap_cons]
      refine ⟨List.nodup_append.mpr ⟨hnodup, hrest, fun x hx y hy heq => ?_⟩, fun x hx => ?_⟩
      · exact hlater y hy (heq ▸ hwritten x hx)
      · rcases List.mem_append.mp hx with hx | hx
        · exact hfresh x hx
        · exact fun hdefined => hlater x hx (hkeep x hdefined)

/-! ## Graphs -/

theorem checkOutputs_eq_ok {outputs : List TensorNode} :
    checkOutputs defined outputs = .ok () ↔ ∀ t ∈ outputs, t.name ∈ defined := by
  unfold checkOutputs
  split
  · rename_i t ht
    have hbad : t.name ∉ defined := by simpa using List.find?_some ht
    exact iff_of_false (by simp) fun h => hbad (h t (List.mem_of_find?_eq_some ht))
  · rename_i hnone
    refine iff_of_true rfl fun t ht => ?_
    simpa using List.find?_eq_none.mp hnone t ht

theorem checkGraph_eq_ok {g : Graph} : checkGraph g = .ok () ↔
    ∃ defined, checkNodes ((g.initializers ++ g.inputs).map TensorNode.name) g.nodes =
      .ok defined ∧ ∀ t ∈ g.outputs, t.name ∈ defined := by
  simp only [checkGraph, bind_eq_ok, checkOutputs_eq_ok]

end Relayout.Target
