/-
# Edges and operands

A tensor records the operators at its two ends, an operator its operands on two
sides.  `Matched` says of one side that the two records agree: an operator is at
the end of a tensor exactly if the tensor is among its operands, and no end
names an operator twice.
-/
import Relayout.Proofs.Graph.Edit
import Relayout.Proofs.Tensor

namespace Relayout

/-- The ends of all tensors agree with the operands of all operators. -/
structure Matched (edges : List (List OpId)) (operands : List (List TensorId)) : Prop where
  nodup : ∀ es ∈ edges, es.Nodup
  edge_iff : ∀ {i es}, edges[i]? = some es →
    ∀ j, OpId.mk j ∈ es ↔ ∃ ids, operands[j]? = some ids ∧ TensorId.mk i ∈ ids
  bounded : ∀ ids ∈ operands, ∀ id ∈ ids, id.index < edges.length

namespace Matched

variable {edges : List (List OpId)} {operands : List (List TensorId)}

theorem empty : Matched [] [] where
  nodup := by simp
  edge_iff := by simp
  bounded := by simp

/-- New tensors have no ends. -/
theorem addTensors (h : Matched edges operands) {more : List (List OpId)}
    (hmore : ∀ es ∈ more, es = []) : Matched (edges ++ more) operands where
  nodup := by
    intro es hes
    rcases List.mem_append.mp hes with hes | hes
    · exact h.nodup es hes
    · rw [hmore es hes]
      exact List.nodup_nil
  edge_iff := by
    intro i es hi j
    by_cases hlt : i < edges.length
    · rw [List.getElem?_append_left hlt] at hi
      exact h.edge_iff hi j
    · have hes : es = [] := by
        rw [List.getElem?_append_right (by omega)] at hi
        exact hmore es (List.mem_of_getElem? hi)
      subst hes
      refine ⟨fun hj => by simp at hj, ?_⟩
      rintro ⟨ids, hids, hmem⟩
      exact absurd (h.bounded ids (List.mem_of_getElem? hids) _ hmem) hlt
  bounded := by
    intro ids hids id hid
    have := h.bounded ids hids id hid
    rw [List.length_append]
    omega

/-- A new operator has no operands. -/
theorem addOp (h : Matched edges operands) : Matched edges (operands ++ [[]]) where
  nodup := h.nodup
  edge_iff := by
    intro i es hi j
    rw [h.edge_iff hi j]
    constructor
    · rintro ⟨ids, hids, hmem⟩
      refine ⟨ids, ?_, hmem⟩
      rw [List.getElem?_append_left (List.getElem?_eq_some_iff.mp hids).1]
      exact hids
    · rintro ⟨ids, hids, hmem⟩
      rw [List.getElem?_append] at hids
      split at hids
      · exact ⟨ids, hids, hmem⟩
      · obtain rfl := List.mem_singleton.mp (List.mem_of_getElem? hids)
        simp at hmem
  bounded := by
    intro ids hids id hid
    rcases List.mem_append.mp hids with hids | hids
    · exact h.bounded ids hids id hid
    · obtain rfl := List.mem_singleton.mp hids
      simp at hid

/-- A tensor becomes an operand of an operator, and the operator its end. -/
theorem attach (h : Matched edges operands) {i j : Nat} (hi : i < edges.length)
    (hj : j < operands.length) :
    Matched (edges.modify i (Relayout.attach ⟨j⟩)) (operands.modify j (· ++ [⟨i⟩])) where
  nodup := by
    intro es hes
    obtain ⟨k, hk⟩ := List.getElem?_of_mem hes
    rw [List.getElem?_modify] at hk
    obtain ⟨es', hes', rfl⟩ := Option.map_eq_some_iff.mp hk
    have := h.nodup es' (List.mem_of_getElem? hes')
    by_cases hik : i = k
    · simpa [hik] using nodup_attach this
    · simpa [hik] using this
  edge_iff := by
    intro k es hk m
    rw [List.getElem?_modify] at hk
    obtain ⟨es', hes', rfl⟩ := Option.map_eq_some_iff.mp hk
    have hiff := h.edge_iff hes' m
    have hids : (operands.modify j (· ++ [⟨i⟩]))[m]? =
        operands[m]?.map fun ids => if j = m then ids ++ [⟨i⟩] else ids := by
      rw [List.getElem?_modify]
      rfl
    rw [hids]
    obtain hm | ⟨ids, hm⟩ := Option.eq_none_or_eq_some operands[m]?
    · have hjm : j ≠ m := fun hjm => by
        subst hjm
        simp [List.getElem?_eq_getElem hj] at hm
      have hno : (⟨m⟩ : OpId) ∉ es' := by simp [hiff, hm]
      by_cases hik : i = k
      · simp [hik, hm, hno, Ne.symm hjm]
      · simp [hik, hm, hno]
    · simp only [hm, Option.some.injEq, exists_eq_left'] at hiff
      simp only [hm, Option.map_some, Option.some.injEq, exists_eq_left']
      by_cases hik : i = k
      · by_cases hjm : j = m
        · simp [hik, hjm]
        · simp [hik, hjm, Ne.symm hjm, hiff]
      · by_cases hjm : j = m
        · simp [hik, Ne.symm hik, hjm, hiff]
        · simp [hik, hjm, hiff]
  bounded := by
    intro ids hids id hid
    obtain ⟨m, hm⟩ := List.getElem?_of_mem hids
    rw [List.getElem?_modify] at hm
    obtain ⟨ids', hids', rfl⟩ := Option.map_eq_some_iff.mp hm
    have hb := h.bounded ids' (List.mem_of_getElem? hids')
    rw [List.length_modify]
    by_cases hjm : j = m
    · have hid' : id ∈ ids' ∨ id = ⟨i⟩ := by simpa [hjm] using hid
      rcases hid' with hid | rfl
      · exact hb id hid
      · exact hi
    · exact hb id (by simpa [hjm] using hid)

end Matched

namespace Graph

/-- On both sides, edges and operands of a graph agree. -/
structure Wired (g : Graph) : Prop where
  consumers : Matched (g.tensors.map Tensor.consumers) (g.ops.map Operator.inputs)
  producers : Matched (g.tensors.map Tensor.producers) (g.ops.map Operator.outputs)

namespace Wired

variable {g : Graph} {i j : Nat} {t : Tensor} {o : Operator}

theorem empty : Graph.empty.Wired := ⟨.empty, .empty⟩

/-- A reader is a consumer. -/
theorem mem_consumers (h : g.Wired) (ho : g.ops[j]? = some o) (ht : g.tensors[i]? = some t)
    (hi : TensorId.mk i ∈ o.inputs) : OpId.mk j ∈ t.consumers :=
  (h.consumers.edge_iff (by rw [List.getElem?_map, ht, Option.map_some]) j).mpr
    ⟨o.inputs, by rw [List.getElem?_map, ho, Option.map_some], hi⟩

/-- A writer is a producer. -/
theorem mem_producers (h : g.Wired) (ho : g.ops[j]? = some o) (ht : g.tensors[i]? = some t)
    (hi : TensorId.mk i ∈ o.outputs) : OpId.mk j ∈ t.producers :=
  (h.producers.edge_iff (by rw [List.getElem?_map, ht, Option.map_some]) j).mpr
    ⟨o.outputs, by rw [List.getElem?_map, ho, Option.map_some], hi⟩

theorem lt_of_mem_producers (h : g.Wired) (ht : g.tensors[i]? = some t) {op : OpId}
    (hop : op ∈ t.producers) : op.index < g.ops.length := by
  obtain ⟨ids, hids, -⟩ :=
    (h.producers.edge_iff (by rw [List.getElem?_map, ht, Option.map_some]) op.index).mp hop
  simpa using (List.getElem?_eq_some_iff.mp hids).1

/-- A tensor read by an operator gets it as a consumer. -/
theorem attachInput (h : g.Wired) {id : TensorId} {op : OpId}
    (hid : id.index < g.tensors.length) (hop : op.index < g.ops.length) :
    Wired { g with
      tensors := g.tensors.modify id.index fun t => t.addConsumer op
      ops := g.ops.modify op.index fun o => o.addInput id } where
  consumers := by
    rw [map_modify (p := Tensor.consumers) (q := attach op) (fun _ => rfl),
      map_modify (p := Operator.inputs) (q := (· ++ [id])) (fun _ => rfl)]
    exact h.consumers.attach (by simpa using hid) (by simpa using hop)
  producers := by
    rw [map_modify_of_eq (f := (·.addConsumer op)) (p := Tensor.producers) (fun _ => rfl),
      map_modify_of_eq (f := (·.addInput id)) (p := Operator.outputs) (fun _ => rfl)]
    exact h.producers

/-- A tensor written by an operator gets it as a producer. -/
theorem attachOutput (h : g.Wired) {id : TensorId} {op : OpId}
    (hid : id.index < g.tensors.length) (hop : op.index < g.ops.length) :
    Wired { g with
      tensors := g.tensors.modify id.index fun t => t.addProducer op
      ops := g.ops.modify op.index fun o => o.addOutput id } where
  consumers := by
    rw [map_modify_of_eq (f := (·.addProducer op)) (p := Tensor.consumers) (fun _ => rfl),
      map_modify_of_eq (f := (·.addOutput id)) (p := Operator.inputs) (fun _ => rfl)]
    exact h.consumers
  producers := by
    rw [map_modify (p := Tensor.producers) (q := attach op) (fun _ => rfl),
      map_modify (p := Operator.outputs) (q := (· ++ [id])) (fun _ => rfl)]
    exact h.producers.attach (by simpa using hid) (by simpa using hop)

/-- New tensors that nothing refers to yet. -/
theorem addTensors (h : g.Wired) {ts : List Tensor} (hts : ∀ t ∈ ts, t.bare = t)
    (names : SortedMap TensorId) (ws : List Warning) :
    Wired { g with tensors := g.tensors ++ ts, byName := names, warnings := ws } where
  consumers := by
    rw [List.map_append]
    refine h.consumers.addTensors fun es hes => ?_
    obtain ⟨t, ht, rfl⟩ := List.mem_map.mp hes
    rw [← hts t ht]
    rfl
  producers := by
    rw [List.map_append]
    refine h.producers.addTensors fun es hes => ?_
    obtain ⟨t, ht, rfl⟩ := List.mem_map.mp hes
    rw [← hts t ht]
    rfl

/-- A new operator without operands. -/
theorem addOp (h : g.Wired) {o : Operator} (hi : o.inputs = []) (ho : o.outputs = []) :
    Wired { g with ops := g.ops ++ [o] } where
  consumers := by
    rw [List.map_append, List.map_singleton, hi]
    exact h.consumers.addOp
  producers := by
    rw [List.map_append, List.map_singleton, ho]
    exact h.producers.addOp

end Wired

end Graph

end Relayout
