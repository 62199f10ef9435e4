/-
# Edges of an adapted graph

After intake, a tensor records an operator at one of its ends exactly if the
operator has the tensor among its operands on that side.  Adapting keeps this of
the writing end.  At the reading end it gives up one case: a reshape that is
turned away from its input is no longer recorded there, even if it still reads
the tensor as its shape.  `Edged` follows both ends through the pass.
-/
import Relayout.Proofs.Graph.Population
import Relayout.Proofs.Violations

namespace Relayout

/-! ## Rows of a table -/

/-- Row `i` of a table has the entry `a`. -/
def Listed {α : Type} (rows : List (List α)) (i : Nat) (a : α) : Prop :=
  ∃ row, rows[i]? = some row ∧ a ∈ row

namespace Listed

variable {α : Type} {rows : List (List α)} {row rest : List α} {i j : Nat} {a b old new : α}

theorem append_singleton (rows : List (List α)) (row : List α) (j : Nat) (a : α) :
    Listed (rows ++ [row]) j a ↔ Listed rows j a ∨ j = rows.length ∧ a ∈ row := by
  constructor
  · rintro ⟨r, hr, ha⟩
    rw [List.getElem?_append] at hr
    split at hr
    · exact Or.inl ⟨r, hr, ha⟩
    · obtain ⟨hlt, rfl⟩ := List.getElem?_eq_some_iff.mp hr
      have hj : j = rows.length := by
        rw [List.length_singleton] at hlt
        omega
      exact Or.inr ⟨hj, by simpa using ha⟩
  · rintro (⟨r, hr, ha⟩ | ⟨rfl, ha⟩)
    · exact ⟨r, by rw [List.getElem?_append_left (List.getElem?_eq_some_iff.mp hr).1, hr], ha⟩
    · exact ⟨row, by simp, ha⟩

/-- What a change of one row makes of a table. -/
theorem modify_iff (h : rows[i]? = some row) (f : List α → List α) (j : Nat) (a : α) :
    Listed (rows.modify i f) j a ↔ j ≠ i ∧ Listed rows j a ∨ j = i ∧ a ∈ f row := by
  unfold Listed
  by_cases hj : j = i
  · subst hj
    rw [List.getElem?_modify_eq, h]
    simp
  · rw [List.getElem?_modify_ne _ _ (Ne.symm hj)]
    simp [hj]

theorem iff_mem (h : rows[i]? = some row) : Listed rows i a ↔ a ∈ row := by
  simp [Listed, h]

theorem lt (h : Listed rows i a) : i < rows.length := by
  obtain ⟨row, hrow, -⟩ := h
  exact (List.getElem?_eq_some_iff.mp hrow).1

end Listed

/-- An operator gives its place to another one. -/
def swap (old new : OpId) (es : List OpId) : List OpId := es.set (es.idxOf old) new

namespace Listed

variable {edges : List (List OpId)} {es : List OpId} {i j : Nat} {p q old new : OpId}

theorem modify_attach (h : i < edges.length) (q : OpId) (j : Nat) (p : OpId) :
    Listed (edges.modify i (attach q)) j p ↔ Listed edges j p ∨ p = q ∧ j = i := by
  have hi := List.getElem?_eq_getElem h
  rw [modify_iff hi, mem_attach]
  by_cases hj : j = i
  · subst hj
    simp [iff_mem hi]
  · simp [hj]

theorem modify_remove (h : i < edges.length) (q : OpId) (j : Nat) (p : OpId) :
    Listed (edges.modify i (·.filter (· ≠ q))) j p ↔
      Listed edges j p ∧ ¬(p = q ∧ j = i) := by
  have hi := List.getElem?_eq_getElem h
  rw [modify_iff hi, List.mem_filter]
  by_cases hj : j = i
  · subst hj
    simp [iff_mem hi]
  · simp [hj]

theorem mem_swap_iff (hnodup : es.Nodup) (hold : old ∈ es) (hnew : new ∉ es) :
    p ∈ swap old new es ↔ p ∈ es ∧ p ≠ old ∨ p = new := by
  constructor
  · intro hp
    obtain ⟨i, hi⟩ := List.getElem?_of_mem hp
    rw [swap, List.getElem?_set] at hi
    split at hi
    · split at hi
      · exact Or.inr (Option.some.inj hi).symm
      · cases hi
    · rename_i hne
      refine Or.inl ⟨List.mem_of_getElem? hi, ?_⟩
      rintro rfl
      obtain ⟨hlt, rfl⟩ := List.getElem?_eq_some_iff.mp hi
      exact hne (hnodup.idxOf_getElem i hlt)
  · rintro (⟨hp, hne⟩ | rfl)
    · exact Rewired.mem_set_idxOf hp hne
    · exact List.mem_set (List.idxOf_lt_length_of_mem hold) _

theorem modify_swap (h : edges[i]? = some es) (hnodup : es.Nodup) (hold : old ∈ es)
    (hnew : new ∉ es) (j : Nat) (p : OpId) :
    Listed (edges.modify i (swap old new)) j p ↔
      Listed edges j p ∧ ¬(p = old ∧ j = i) ∨ p = new ∧ j = i := by
  rw [modify_iff h, mem_swap_iff hnodup hold hnew]
  by_cases hj : j = i
  · subst hj
    simp [iff_mem h]
  · simp [hj]

end Listed

theorem Matched.listed_iff {edges : List (List OpId)} {operands : List (List TensorId)}
    (h : Matched edges operands) (p : OpId) (x : TensorId) :
    Listed edges x.index p ↔ Listed operands p.index x := by
  constructor
  · rintro ⟨es, hes, hp⟩
    exact (h.edge_iff hes p.index).mp hp
  · rintro ⟨ids, hids, hx⟩
    have hes := List.getElem?_eq_getElem (h.bounded ids (List.mem_of_getElem? hids) x hx)
    exact ⟨_, hes, (h.edge_iff hes p.index).mpr ⟨ids, hids, hx⟩⟩

/-- A change keeps rows free of duplicates. -/
theorem nodup_modify {edges : List (List OpId)} {i : Nat} {f : List OpId → List OpId}
    (h : ∀ es ∈ edges, es.Nodup)
    (hf : ∀ es, edges[i]? = some es → es.Nodup → (f es).Nodup) :
    ∀ es ∈ edges.modify i f, es.Nodup := by
  intro es hes
  obtain ⟨j, hj⟩ := List.getElem?_of_mem hes
  rw [List.getElem?_modify] at hj
  obtain ⟨row, hrow, rfl⟩ := Option.map_eq_some_iff.mp hj
  have hnodup := h row (List.mem_of_getElem? hrow)
  by_cases hi : i = j
  · subst hi
    simpa using hf row hrow hnodup
  · simpa [hi] using hnodup

/-- A new operator takes the place of another in one row, and some operator joins
another row. -/
theorem nodup_swap_attach {edges : List (List OpId)} {i : Nat} {old new : OpId}
    (h : ∀ es ∈ edges, es.Nodup) (hnew : ¬Listed edges i new) (j : Nat) (q : OpId) :
    ∀ es ∈ (edges.modify i (swap old new)).modify j (attach q), es.Nodup :=
  nodup_modify (nodup_modify h fun _ hes hnodup =>
    hnodup.set fun hmem => hnew ((Listed.iff_mem hes).mpr hmem)) fun _ _ => nodup_attach

/-! ## Edges and operands of a graph -/

/-- The operators at one end of a tensor. -/
def Tensor.ends : Side → Tensor → List OpId
  | .inputs => Tensor.consumers
  | .outputs => Tensor.producers

/-- The operands of an operator on one side. -/
def Operator.operands : Side → Operator → List TensorId
  | .inputs => Operator.inputs
  | .outputs => Operator.outputs

namespace Graph

/-- The operators at one end of every tensor. -/
def ends (g : Graph) (side : Side) : List (List OpId) := g.tensors.map (Tensor.ends side)

/-- The operands of every operator on one side. -/
def operands (g : Graph) (side : Side) : List (List TensorId) :=
  g.ops.map (Operator.operands side)

/-- Tensor `x` records operator `p` at one of its ends. -/
def Edge (g : Graph) (side : Side) (p : OpId) (x : TensorId) : Prop :=
  Listed (g.ends side) x.index p

/-- Operator `p` has tensor `x` among its operands on one side. -/
def Operand (g : Graph) (side : Side) (p : OpId) (x : TensorId) : Prop :=
  Listed (g.operands side) p.index x

variable {g k k' : Graph} {side : Side} {op p turn : OpId} {operand moved x : TensorId}
  {o : Operator} {t u : Tensor} {l : Layout} {n : Nat} {perm : List Nat} {name : String}

theorem getElem?_ends {i : Nat} (ht : k.tensors[i]? = some t) (side : Side) :
    (k.ends side)[i]? = some (t.ends side) := by
  rw [ends, List.getElem?_map, ht, Option.map_some]

theorem getElem?_operands {i : Nat} (ho : k.ops[i]? = some o) (side : Side) :
    (k.operands side)[i]? = some (o.operands side) := by
  rw [operands, List.getElem?_map, ho, Option.map_some]

theorem operand_iff (ho : k.ops[p.index]? = some o) :
    k.Operand side p x ↔ x ∈ o.operands side := Listed.iff_mem (getElem?_operands ho side)

theorem edge_iff (ht : k.tensors[x.index]? = some t) : k.Edge side p x ↔ p ∈ t.ends side :=
  Listed.iff_mem (getElem?_ends ht side)

/-! ## What a splice does to the ends of tensors -/

theorem ends_completing (k : Graph) (id : TensorId) (shape : List Nat) (l : Layout)
    (side : Side) : (k.completing id shape l).ends side = k.ends side := by
  rw [ends, completing, map_modify_of_eq (f := Tensor.completed shape l)
    (p := Tensor.ends side) (fun _ => by cases side <;> rfl), ← ends]

theorem edge_completed (k : Graph) (t : Tensor) (name : String) (shape : List Nat) (l : Layout)
    (side : Side) (p : OpId) (x : TensorId) :
    ((k.withDerived t name).2.completing (k.withDerived t name).1 shape l).Edge side p x ↔
      k.Edge side p x := by
  rw [Edge, ends_completing]
  unfold withDerived
  split
  · exact Iff.rfl
  · rw [ends, tensors_adding, List.map_append, List.map_singleton, Listed.append_singleton]
    refine or_iff_left fun h => ?_
    cases side <;> cases h.2

/-- Changes of two tensors, seen from one end. -/
theorem ends_of_tensors {f f' : Tensor → Tensor} (q q' : List OpId → List OpId)
    (h : k'.tensors = (k.tensors.modify operand.index f).modify moved.index f')
    (hf : ∀ t : Tensor, (f t).ends side = q (t.ends side))
    (hf' : ∀ t : Tensor, (f' t).ends side = q' (t.ends side)) :
    k'.ends side =
      ((k.ends side).modify operand.index q).modify moved.index q' := by
  rw [ends, h, map_modify hf', map_modify hf, ← ends]

theorem ends_readingInstead_inputs (k : Graph) (op : OpId) (operand moved : TensorId) :
    (k.readingInstead op operand moved).ends .inputs =
      ((k.ends .inputs).modify operand.index (·.filter (· ≠ op))).modify moved.index
        (attach op) :=
  ends_of_tensors _ _ rfl (fun _ => rfl) (fun _ => rfl)

theorem ends_readingInstead_outputs (k : Graph) (op : OpId) (operand moved : TensorId) :
    (k.readingInstead op operand moved).ends .outputs = k.ends .outputs := by
  have h : (k.readingInstead op operand moved).ends .outputs =
      ((k.ends .outputs).modify operand.index id).modify moved.index id :=
    ends_of_tensors _ _ rfl (fun _ => rfl) (fun _ => rfl)
  rw [h, List.modify_id, List.modify_id]

theorem ends_transposedBefore_inputs (k : Graph) (op : OpId) (operand moved : TensorId)
    (perm : List Nat) (name : String) :
    (k.transposedBefore op operand moved perm name).ends .inputs =
      ((k.ends .inputs).modify operand.index (swap op ⟨k.ops.length⟩)).modify moved.index
        (attach op) :=
  ends_of_tensors _ _ rfl (fun _ => rfl) (fun _ => rfl)

theorem ends_transposedBefore_outputs (k : Graph) (op : OpId) (operand moved : TensorId)
    (perm : List Nat) (name : String) :
    (k.transposedBefore op operand moved perm name).ends .outputs =
      (k.ends .outputs).modify moved.index (attach ⟨k.ops.length⟩) := by
  have h : (k.transposedBefore op operand moved perm name).ends .outputs =
      ((k.ends .outputs).modify operand.index id).modify moved.index (attach ⟨k.ops.length⟩) :=
    ends_of_tensors _ _ rfl (fun _ => rfl) (fun _ => rfl)
  rw [h, List.modify_id]

theorem ends_transposedAfter_inputs (k : Graph) (op : OpId) (operand moved : TensorId)
    (perm : List Nat) (name : String) :
    (k.transposedAfter op operand moved perm name).ends .inputs =
      (k.ends .inputs).modify moved.index (attach ⟨k.ops.length⟩) := by
  have h : (k.transposedAfter op operand moved perm name).ends .inputs =
      ((k.ends .inputs).modify operand.index id).modify moved.index (attach ⟨k.ops.length⟩) :=
    ends_of_tensors _ _ rfl (fun _ => rfl) (fun _ => rfl)
  rw [h, List.modify_id]

theorem ends_transposedAfter_outputs (k : Graph) (op : OpId) (operand moved : TensorId)
    (perm : List Nat) (name : String) :
    (k.transposedAfter op operand moved perm name).ends .outputs =
      ((k.ends .outputs).modify operand.index (swap op ⟨k.ops.length⟩)).modify moved.index
        (attach op) :=
  ends_of_tensors _ _ rfl (fun _ => rfl) (fun _ => rfl)

/-! ## What a splice does to operands -/

theorem operand_modify {f : Operator → Operator} (op : OpId) (ho : k.ops[op.index]? = some o)
    (hops : k'.ops = k.ops.modify op.index f) :
    k'.Operand side p x ↔ p ≠ op ∧ k.Operand side p x ∨ p = op ∧ x ∈ (f o).operands side := by
  have hrows : k'.operands side = (k.operands side).modify op.index
      fun _ => (f o).operands side := by
    refine List.ext_getElem? fun i => ?_
    rw [operands, operands, hops, List.getElem?_map, List.getElem?_modify, List.getElem?_modify,
      List.getElem?_map]
    by_cases hi : op.index = i
    · subst hi
      simp [ho]
    · simp [hi]
  rw [Operand, hrows, Listed.modify_iff (getElem?_operands ho side), ne_eq, OpId.index_inj]
  rfl

theorem operand_append {q : Operator} (k : Graph) (hops : k'.ops = k.ops ++ [q]) :
    k'.Operand side p x ↔ k.Operand side p x ∨ p = ⟨k.ops.length⟩ ∧ x ∈ q.operands side := by
  have hlength : (k.ops.map (Operator.operands side)).length = k.ops.length := List.length_map _
  rw [Operand, operands, hops, List.map_append, List.map_singleton, Listed.append_singleton,
    hlength]
  obtain ⟨i⟩ := p
  simp [Operand, operands]

/-- A splice changes one operator and adds its transpose. -/
theorem operand_spliced {f : Operator → Operator} {q : Operator} (op : OpId)
    (ho : k.ops[op.index]? = some o) (hops : k'.ops = k.ops.modify op.index f ++ [q]) :
    k'.Operand side p x ↔
      (p ≠ op ∧ k.Operand side p x ∨ p = op ∧ x ∈ (f o).operands side) ∨
        p = ⟨k.ops.length⟩ ∧ x ∈ q.operands side := by
  rw [operand_append { k with ops := k.ops.modify op.index f } hops,
    operand_modify (k := k) op ho rfl, List.length_modify]

theorem operand_modify_of_eq {f : Operator → Operator} {i : Nat}
    (hops : k'.ops = k.ops.modify i f)
    (hf : ∀ o : Operator, (f o).operands side = o.operands side) :
    k'.Operand side p x ↔ k.Operand side p x := by
  rw [Operand, operands, hops, map_modify_of_eq hf, ← operands, ← Operand]

/-- The side that a splice is not on gains the transpose. -/
theorem operand_spliced_of_eq {f : Operator → Operator} {i : Nat} {q : Operator}
    (hops : k'.ops = k.ops.modify i f ++ [q])
    (hf : ∀ o : Operator, (f o).operands side = o.operands side) :
    k'.Operand side p x ↔
      k.Operand side p x ∨ p = ⟨k.ops.length⟩ ∧ x ∈ q.operands side := by
  rw [operand_append { k with ops := k.ops.modify i f } hops,
    operand_modify_of_eq (k := k) rfl hf, List.length_modify]

/-! ## Edges that agree with operands -/

/-- Operator `p` is a reshape that is turned away from its input `x`. -/
def Turns (g : Graph) (p : OpId) (x : TensorId) : Prop :=
  ∃ o output tx ty, g.ReshapeAt p.index o x output tx ty ∧ g.Tagged p.index tx

/-- The graph `g` while its operators are adapted: edges and operands agree,
but for the reshapes before `reads` that were turned away from their inputs. -/
structure Edged (g : Graph) (reads : Nat) (k : Graph) : Prop where
  nodup : ∀ side, ∀ es ∈ k.ends side, es.Nodup
  reading : ∀ p x, k.Edge .inputs p x ↔
    k.Operand .inputs p x ∧ ¬(p.index < reads ∧ g.Turns p x)
  writing : ∀ p x, k.Edge .outputs p x ↔ k.Operand .outputs p x

/-- Operator `op` is led from `operand` to `moved`.  It may keep `operand` in
`rest`, its other slots, and then it is no longer recorded there; `new` are the
edges of an operator in its place. -/
theorem edge_iff_of_led {E E' O O' S S' : OpId → TensorId → Prop} {operand moved : TensorId}
    (op : OpId) (rest : List TensorId) (new : OpId → TensorId → Prop)
    (h : ∀ p x, E p x ↔ O p x ∧ ¬S p x)
    (hO : ∀ x, O op x ↔ x = operand ∨ x ∈ rest) (hS : ∀ x, ¬S op x)
    (hE' : ∀ p x, E' p x ↔ (E p x ∧ ¬(p = op ∧ x = operand) ∨ new p x) ∨ p = op ∧ x = moved)
    (hO' : ∀ p x, O' p x ↔ (p ≠ op ∧ O p x ∨ p = op ∧ (x = moved ∨ x ∈ rest)) ∨ new p x)
    (hnew : ∀ p x, new p x → p ≠ op ∧ ¬S' p x) (hne : moved ≠ operand)
    (hother : ∀ p x, p ≠ op → (S' p x ↔ S p x)) (hturned : ∀ x, S' op x → x = operand)
    (hrest : operand ∈ rest → S' op operand) (p : OpId) (x : TensorId) :
    E' p x ↔ O' p x ∧ ¬S' p x := by
  rw [hE', hO', h]
  by_cases hp : p = op
  · subst hp
    rw [hO]
    grind
  · grind

section Step

variable {reads : Nat} {input output : TensorId} {tx ty : Tensor}

theorem Edged.lt (h : Edged g reads k) (he : k.Edge side p x) : p.index < k.ops.length := by
  have hlisted : Listed (k.operands side) p.index x := by
    cases side with
    | inputs => exact ((h.reading p x).mp he).1
    | outputs => exact (h.writing p x).mp he
  simpa [operands] using hlisted.lt

/-- The next operator is none before it. -/
theorem Edged.fresh (h : Edged g reads k) (side : Side) (x : TensorId) :
    ¬k.Edge side ⟨k.ops.length⟩ x := fun he => Nat.lt_irrefl _ (h.lt he)

theorem ReshapeAt.turns_iff (hat : g.ReshapeAt n o input output tx ty) :
    g.Turns ⟨n⟩ x ↔ x = input ∧ g.Tagged n tx := by
  constructor
  · rintro ⟨o', output', tx', ty', hat', htag⟩
    obtain ⟨rfl, -, rfl, -⟩ := hat.unique hat'
    exact ⟨rfl, htag⟩
  · rintro ⟨rfl, htag⟩
    exact ⟨o, output, tx, ty, hat, htag⟩

theorem lt_succ_iff_of_ne {p : OpId} (hp : p ≠ ⟨n⟩) : p.index < n + 1 ↔ p.index < n := by
  have hne : p.index ≠ n := fun heq => hp (OpId.index_inj.mp heq)
  omega

/-- The input of a reshape is led to the tensor that an earlier one shares. -/
theorem Edged.readingInstead (h : Edged g n k) (hat : g.ReshapeAt n o input output tx ty)
    (htag : g.Tagged n tx) {q : Operator} {rest : List TensorId} (hq : k.ops[n]? = some q)
    (hins : q.inputs = input :: rest) (hinput : input.index < k.tensors.length)
    (hmoved : moved.index < k.tensors.length) (hne : moved ≠ input) :
    Edged g (n + 1) (k.readingInstead ⟨n⟩ input moved) where
  nodup := by
    intro side
    cases side with
    | inputs =>
        rw [ends_readingInstead_inputs]
        exact nodup_modify (nodup_modify (h.nodup .inputs) fun _ _ hes => hes.filter _)
          fun _ _ => nodup_attach
    | outputs =>
        rw [ends_readingInstead_outputs]
        exact h.nodup .outputs
  reading := by
    refine edge_iff_of_led ⟨n⟩ rest (fun _ _ => False) h.reading
      (fun x => ?_) (fun x => ?_) (fun p x => ?_) (fun p x => ?_) (fun _ _ => False.elim) hne
      (fun p x hp => ?_) (fun x hx => (hat.turns_iff.mp hx.2).1)
      (fun _ => ⟨Nat.lt_succ_self n, hat.turns_iff.mpr ⟨rfl, htag⟩⟩)
    · rw [operand_iff (p := ⟨n⟩) hq, Operator.operands, hins, List.mem_cons]
    · exact fun hx => Nat.lt_irrefl _ hx.1
    · rw [or_false, Edge, ends_readingInstead_inputs,
        Listed.modify_attach (by simpa [ends] using hmoved),
        Listed.modify_remove (by simpa [ends] using hinput), TensorId.index_inj,
        TensorId.index_inj]
      rfl
    · rw [or_false, operand_modify (k := k) ⟨n⟩ hq rfl]
      refine or_congr_right (and_congr_right fun _ => ?_)
      rw [Operator.operands, Operator.withInput, hins, List.set_cons_zero, List.mem_cons]
    · exact and_congr_left fun _ => lt_succ_iff_of_ne hp
  writing := by
    intro p x
    rw [operand_modify_of_eq (k := k) (f := (·.withInput moved)) rfl fun _ => rfl, Edge,
      ends_readingInstead_outputs]
    exact h.writing p x

/-- The input of a reshape is led to the tensor behind a new transpose. -/
theorem Edged.transposedBefore (h : Edged g n k) (hat : g.ReshapeAt n o input output tx ty)
    (htag : g.Tagged n tx) {q : Operator} {rest : List TensorId} (hq : k.ops[n]? = some q)
    (hins : q.inputs = input :: rest) (hu : k.tensors[input.index]? = some u)
    (hreader : ⟨n⟩ ∈ u.consumers) (hmoved : moved.index < k.tensors.length)
    (hne : moved ≠ input) (perm : List Nat) (name : String) :
    Edged g (n + 1) (k.transposedBefore ⟨n⟩ input moved perm name) := by
  have hn := (List.getElem?_eq_some_iff.mp hq).1
  have hrow := getElem?_ends hu .inputs
  have hnodup := h.nodup .inputs _ (List.mem_of_getElem? hrow)
  have hfresh : ⟨k.ops.length⟩ ∉ u.ends .inputs := fun hmem =>
    h.fresh .inputs input ((edge_iff hu).mpr hmem)
  refine ⟨fun side => ?_, ?_, fun p x => ?_⟩
  · cases side with
    | inputs =>
        rw [ends_transposedBefore_inputs]
        exact nodup_swap_attach (h.nodup .inputs) (h.fresh .inputs input) _ _
    | outputs =>
        rw [ends_transposedBefore_outputs]
        exact nodup_modify (h.nodup .outputs) fun _ _ => nodup_attach
  · refine edge_iff_of_led ⟨n⟩ rest (fun p x => p = ⟨k.ops.length⟩ ∧ x = input) h.reading
      (fun x => ?_) (fun x => ?_) (fun p x => ?_) (fun p x => ?_) ?_ hne
      (fun p x hp => ?_) (fun x hx => (hat.turns_iff.mp hx.2).1)
      (fun _ => ⟨Nat.lt_succ_self n, hat.turns_iff.mpr ⟨rfl, htag⟩⟩)
    · rw [operand_iff (p := ⟨n⟩) hq, Operator.operands, hins, List.mem_cons]
    · exact fun hx => Nat.lt_irrefl _ hx.1
    · rw [Edge, ends_transposedBefore_inputs,
        Listed.modify_attach (by simpa [ends] using hmoved),
        Listed.modify_swap hrow hnodup hreader hfresh, TensorId.index_inj, TensorId.index_inj]
      rfl
    · rw [operand_spliced (k := k) ⟨n⟩ hq rfl]
      refine or_congr (or_congr_right (and_congr_right fun _ => ?_))
        (and_congr_right fun _ => List.mem_singleton)
      rw [Operator.operands, Operator.addPre, Operator.withInput, hins, List.set_cons_zero,
        List.mem_cons]
    · rintro p x ⟨rfl, rfl⟩
      refine ⟨fun heq => ?_, fun hturned => ?_⟩
      · have := congrArg OpId.index heq
        dsimp only at this
        omega
      · have := hturned.1
        dsimp only at this
        omega
    · exact and_congr_left fun _ => lt_succ_iff_of_ne hp
  · rw [Edge, ends_transposedBefore_outputs, Listed.modify_attach (by simpa [ends] using hmoved),
      TensorId.index_inj, operand_spliced_of_eq (k := k)
        (f := fun o => (o.withInput moved).addPre ⟨k.ops.length⟩) rfl fun _ => rfl, ← h.writing]
    exact or_congr_right (and_congr_right fun _ => List.mem_singleton.symm)

/-- The output of a reshape is led to the tensor before a new transpose. -/
theorem Edged.transposedAfter (h : Edged g (n + 1) k) {q : Operator} (hq : k.ops[n]? = some q)
    (houts : q.outputs = [output]) (hu : k.tensors[output.index]? = some u)
    (hwriter : ⟨n⟩ ∈ u.producers) (hmoved : moved.index < k.tensors.length)
    (hne : moved ≠ output) (perm : List Nat) (name : String) :
    Edged g (n + 1) (k.transposedAfter ⟨n⟩ output moved perm name) := by
  have hn := (List.getElem?_eq_some_iff.mp hq).1
  have hrow := getElem?_ends hu .outputs
  have hnodup := h.nodup .outputs _ (List.mem_of_getElem? hrow)
  have hfresh : ⟨k.ops.length⟩ ∉ u.ends .outputs := fun hmem =>
    h.fresh .outputs output ((edge_iff hu).mpr hmem)
  refine ⟨fun side => ?_, fun p x => ?_, fun p x => ?_⟩
  · cases side with
    | inputs =>
        rw [ends_transposedAfter_inputs]
        exact nodup_modify (h.nodup .inputs) fun _ _ => nodup_attach
    | outputs =>
        rw [ends_transposedAfter_outputs]
        exact nodup_swap_attach (h.nodup .outputs) (h.fresh .outputs output) _ _
  · rw [Edge, ends_transposedAfter_inputs, Listed.modify_attach (by simpa [ends] using hmoved),
      TensorId.index_inj, operand_spliced_of_eq (k := k)
        (f := fun o => (o.withOutput moved).addPost ⟨k.ops.length⟩) rfl fun _ => rfl, or_and_right,
      ← h.reading]
    refine or_congr_right ⟨?_, fun hturn => ⟨hturn.1.1, List.mem_singleton.mp hturn.1.2⟩⟩
    rintro ⟨rfl, rfl⟩
    refine ⟨⟨rfl, List.mem_singleton_self _⟩, fun hturned => ?_⟩
    have := hturned.1
    dsimp only at this
    omega
  · have hiff : (k.transposedAfter ⟨n⟩ output moved perm name).Edge .outputs p x ↔
        (k.transposedAfter ⟨n⟩ output moved perm name).Operand .outputs p x ∧ ¬False := by
      refine edge_iff_of_led (S := fun _ _ => False) ⟨n⟩ []
        (fun p x => p = ⟨k.ops.length⟩ ∧ x = output)
        (fun p x => (h.writing p x).trans (and_iff_left not_false).symm)
        (fun x => ?_) (fun _ => id) (fun p x => ?_) (fun p x => ?_) ?_ hne
        (fun _ _ _ => Iff.rfl) (fun _ => False.elim) (fun hmem => by cases hmem) p x
      · rw [operand_iff (p := ⟨n⟩) hq, Operator.operands, houts, List.mem_cons]
      · rw [Edge, ends_transposedAfter_outputs,
          Listed.modify_attach (by simpa [ends] using hmoved),
          Listed.modify_swap hrow hnodup hwriter hfresh, TensorId.index_inj, TensorId.index_inj]
        rfl
      · rw [operand_spliced (k := k) ⟨n⟩ hq rfl]
        refine or_congr (or_congr_right (and_congr_right fun _ => ?_))
          (and_congr_right fun _ => List.mem_singleton)
        rw [Operator.operands, Operator.addPost, Operator.withOutput, houts, List.set_cons_zero,
          List.mem_cons]
      · rintro p x ⟨rfl, rfl⟩
        refine ⟨fun heq => ?_, id⟩
        have := congrArg OpId.index heq
        dsimp only at this
        omega
    rwa [not_false_eq_true, and_true] at hiff

/-- The graph before a transpose is spliced in has the edges it had. -/
theorem Edged.completed (h : Edged g reads k) (t : Tensor) (name : String) (shape : List Nat)
    (l : Layout) :
    Edged g reads ((k.withDerived t name).2.completing (k.withDerived t name).1 shape l) := by
  have hops : ((k.withDerived t name).2.completing (k.withDerived t name).1 shape l).ops = k.ops :=
    withDerived_ops t name
  have hoperand : ∀ side p x,
      ((k.withDerived t name).2.completing (k.withDerived t name).1 shape l).Operand side p x ↔
        k.Operand side p x := fun side p x => by
    rw [Operand, operands, hops, ← operands, ← Operand]
  refine ⟨fun side es hes => ?_, fun p x => ?_, fun p x => ?_⟩
  · rw [ends_completing] at hes
    unfold withDerived at hes
    split at hes
    · exact h.nodup side es hes
    · rw [ends, tensors_adding, List.map_append, List.map_singleton] at hes
      rcases List.mem_append.mp hes with hes | hes
      · exact h.nodup side es hes
      · rw [List.mem_singleton.mp hes]
        cases side <;> exact List.nodup_nil
  · rw [edge_completed, hoperand, h.reading]
  · rw [edge_completed, hoperand, h.writing]

/-- A transpose makes a tensor of another name. -/
theorem withDerived_ne (hk : k.Named) (hu : k.tensors[operand.index]? = some u) (role : String) :
    (k.withDerived u (synthesizedName role u.name)).1 ≠ operand := by
  intro heq
  have hname := nameOf?_withDerived hk u (synthesizedName role u.name)
  have hkept := keeps_withDerived k u (synthesizedName role u.name) operand u.name
    (by rw [nameOf?, hu, Option.map_some])
  rw [heq, hkept] at hname
  exact synthesizedName_ne_self role u.name (Option.some.inj hname).symm

/-- Where operator `n` turns from nothing, the edges are as they were. -/
theorem Edged.unturned (h : Edged g n k) (hno : ∀ x, ¬g.Turns ⟨n⟩ x) : Edged g (n + 1) k := by
  refine ⟨h.nodup, fun p x => ?_, h.writing⟩
  rw [h.reading]
  refine and_congr_right fun _ => not_congr (and_congr_left fun hturns => ?_)
  refine (lt_succ_iff_of_ne ?_).symm
  rintro rfl
  exact hno x hturns

/-- An operator that is no reshape turns from nothing. -/
theorem Edged.next (h : Edged g n k) (hno : ∀ x y, ¬g.Reshapes n x y) : Edged g (n + 1) k := by
  refine h.unturned fun x hturns => ?_
  obtain ⟨o, output, tx, ty, hat, -⟩ := hturns
  exact hno tx ty hat.reshapes

/-- Adapting the input of reshape `n` turns it away if it carries a layout. -/
theorem Edged.adaptInput (h : Edged g n k) (hA : Adapting g (g.Tagged n) n n k)
    (hat : g.ReshapeAt n o input output tx ty) :
    Edged g (n + 1) (k.inputAdapted ⟨n⟩ input) := by
  obtain ⟨u, hu, hc⟩ := hA.old hat.source
  obtain ⟨q, hq, ha⟩ := hA.ops hat.op
  cases hl : u.layout with
  | none =>
      have hopen : ¬g.Tagged n tx := fun htag => by
        have := hc.tagged_iff.mpr htag
        rw [hl] at this
        cases this
      rw [inputAdapted_of_none hu hl]
      exact h.unturned fun x hturns => hopen (hat.turns_iff.mp hturns).2
  | some l =>
      have htag : g.Tagged n tx := hc.tagged_iff.mp (by rw [hl]; rfl)
      obtain ⟨rest, hins⟩ : ∃ rest, q.inputs = input :: rest := by
        have h0 : q.inputs[0]? = some input := (ha.inputs (Nat.le_refl n)) ▸ hat.reads
        cases hq' : q.inputs with
        | nil => rw [hq'] at h0; cases h0
        | cons a rest => rw [hq'] at h0; cases h0; exact ⟨rest, rfl⟩
      rw [inputAdapted_of_some hu hl, inputPreserved]
      cases hshared : producerNamed? k (synthesizedName "Transposed" u.name) with
      | some found =>
          obtain ⟨e, turn⟩ := found
          obtain ⟨v, he, hv, -⟩ := producerNamed?_eq_some.mp hshared
          refine h.readingInstead hat htag hq hins (List.getElem?_eq_some_iff.mp hu).1
            (List.getElem?_eq_some_iff.mp hv).1 ?_
          rintro rfl
          obtain ⟨w, hw, hwn⟩ := lookup?_eq_some hA.named he
          rw [hu] at hw
          cases hw
          exact synthesizedName_ne_self _ _ hwn.symm
      | none =>
          obtain ⟨u', hu', hconsumers, -⟩ := getElem?_completing hu u
            (synthesizedName "Transposed" u.name) (permutedDims l.inverse.perm u.shape) l.inverse
          refine (h.completed u _ _ _).transposedBefore hat htag ?_ hins hu' ?_ ?_
            (withDerived_ne hA.named hu _) _ _
          · rw [completing, withDerived_ops]
            exact hq
          · rw [hconsumers]
            exact hA.reader (Nat.le_refl n) hat.op hat.reads hu
          · simpa [completing] using withDerived_lt hA.named u _

/-- Adapting the output of reshape `n`, its only one, keeps what is recorded. -/
theorem Edged.adaptOutput (h : Edged g (n + 1) k) {tagged : Tensor → Prop}
    (hA : Adapting g tagged (n + 1) n k) (hat : g.ReshapeAt n o input output tx ty)
    (hsole : o.outputs = [output]) : Edged g (n + 1) (k.outputAdapted ⟨n⟩ output) := by
  obtain ⟨u, hu, -⟩ := hA.old hat.target
  obtain ⟨q, hq, ha⟩ := hA.ops hat.op
  cases hl : u.layout with
  | none =>
      rw [outputAdapted_of_none hu hl]
      exact h
  | some l =>
      rw [outputAdapted_of_some hu hl]
      obtain ⟨u', hu', -, hproducers⟩ := getElem?_completing hu u
        (synthesizedName "ToTranspose" u.name) (permutedDims l.inverse.perm u.shape) l.inverse
      refine (h.completed u _ _ _).transposedAfter ?_
        ((ha.outputs (Nat.le_refl n)).trans hsole) hu' ?_ ?_ (withDerived_ne hA.named hu _) _ _
      · rw [completing, withDerived_ops]
        exact hq
      · rw [hproducers]
        exact hA.writer (Nat.le_refl n) hat.op hat.writes hu
      · simpa [completing] using withDerived_lt hA.named u _

end Step

/-! ## The whole pass -/

/-- The edges of a graph that was read. -/
theorem Wired.edge_iff_operand (h : g.Wired) (side : Side) (p : OpId) (x : TensorId) :
    g.Edge side p x ↔ g.Operand side p x := by
  cases side with
  | inputs => exact h.consumers.listed_iff p x
  | outputs => exact h.producers.listed_iff p x

theorem Wired.nodup_ends (h : g.Wired) (side : Side) : ∀ es ∈ g.ends side, es.Nodup := by
  cases side with
  | inputs => exact h.consumers.nodup
  | outputs => exact h.producers.nodup

theorem ends_moved (g : Graph) (side : Side) : g.moved.ends side = g.ends side := by
  rw [ends, moved, List.map_map]
  refine List.map_congr_left fun t _ => ?_
  cases side with
  | inputs => exact t.moved_consumers
  | outputs => exact t.moved_producers

theorem Wired.edged_moved (h : g.Wired) : Edged g 0 g.moved where
  nodup := fun side => by
    rw [ends_moved]
    exact h.nodup_ends side
  reading := fun p x => by
    rw [Edge, ends_moved, ← Edge, h.edge_iff_operand]
    exact (and_iff_left fun hlt => Nat.not_lt_zero _ hlt.1).symm
  writing := fun p x => by
    rw [Edge, ends_moved, ← Edge, h.edge_iff_operand]
    rfl

theorem Edged.marked {reads : Nat} (h : Edged g reads k) (n : Nat) :
    Edged g reads (k.marked n) := by
  have hoperand : ∀ side p x, (k.marked n).Operand side p x ↔ k.Operand side p x :=
    fun side p x => operand_modify_of_eq (f := fun o => { o with status := .transformed }) rfl
      fun _ => by cases side <;> rfl
  exact ⟨h.nodup, fun p x => by rw [hoperand]; exact h.reading p x,
    fun p x => by rw [hoperand]; exact h.writing p x⟩

/-- A reshape has one output. -/
theorem Intake.sole_output {s : Scope} {layouts : SortedMap ExplicitLayout}
    {input output : TensorId} {tx ty : Tensor} (h : Intake s layouts g)
    (hat : g.ReshapeAt n o input output tx ty) :
    o.outputs = [output] := by
  obtain ⟨-, c, -, -, hstands⟩ := h.stands_at hat.op
  obtain ⟨z, hz, -⟩ := List.map_eq_singleton_iff.mp hstands.outputs
  have hwrites := hat.writes
  rw [hz] at hwrites ⊢
  cases hwrites
  rfl

/-- The edges of a graph that was adapted. -/
theorem Intake.edged_adapted {s : Scope} {layouts : SortedMap ExplicitLayout}
    (h : Intake s layouts g) (hclash : ¬g.Clash) : Edged g g.ops.length g.adapted :=
  h.adapted_induction (P := fun reads _ k => Edged g reads k) hclash
    h.taken.wired.edged_moved
    (fun _ hno hP => hP.next fun x y hr => hno x y hr)
    (fun hat hA hP => hP.adaptInput hA hat)
    (fun hat hA _ hP => hP.adaptOutput hA hat (h.sole_output hat))
    (fun _ hP => hP.marked _)

/-- Edges and operands after intake and after adapting, for every source.  No
operator is recorded twice at one end of a tensor.  What intake leaves records
an operator at an end of a tensor exactly if it has the tensor among its
operands, and so does the adapted graph, but for one case: a reshape that was
turned away from its input is not recorded as its reader. -/
theorem transform_edge_iff {s : Scope} {layouts : SortedMap ExplicitLayout} {g g' : Graph}
    (h : IsIntake s layouts g) (hrun : transform g = .ok () g') :
    (∀ side, (∀ es ∈ g.ends side, es.Nodup) ∧ ∀ es ∈ g'.ends side, es.Nodup) ∧
      (∀ side p x, g.Edge side p x ↔ g.Operand side p x) ∧
      (∀ p x, g'.Edge .outputs p x ↔ g'.Operand .outputs p x) ∧
      ∀ p x, g'.Edge .inputs p x ↔ g'.Operand .inputs p x ∧ ¬g.Turns p x := by
  have hends := h.intake.transform_ends
  rw [hrun] at hends
  obtain ⟨hclash, rfl⟩ := hends
  have hwired := h.intake.taken.wired
  have hedged := h.intake.edged_adapted hclash
  refine ⟨fun side => ⟨hwired.nodup_ends side, hedged.nodup side⟩, hwired.edge_iff_operand,
    hedged.writing, fun p x => ?_⟩
  rw [hedged.reading]
  refine and_congr_right fun _ => not_congr (and_iff_right_of_imp ?_)
  rintro ⟨o, output, tx, ty, hat, -⟩
  exact (List.getElem?_eq_some_iff.mp hat.op).1

/-- A reshape that reads one tensor as its input and as its shape. -/
def twiceReadSubgraph : Source.Subgraph where
  name := none
  tensors := [⟨"x", [2, 2], .int64, 0, none⟩, ⟨"y", [4], .int64, 0, none⟩]
  operators := [⟨0, [0, 0], [1], .none⟩]
  inputs := [0]
  outputs := [1]

def twiceReadScope : Scope where
  model := ⟨3, none, [.reshape], [[]], [twiceReadSubgraph]⟩
  subgraph := twiceReadSubgraph
  strict := true

def twiceReadLayouts : SortedMap ExplicitLayout := .insert .empty "x" ⟨"AB", "BA"⟩

/-- It is turned away from its input, whose ends forget it, and still reads the
tensor as its shape. -/
theorem twiceRead_transforms : ∃ g g', IsIntake twiceReadScope twiceReadLayouts g ∧
    transform g = .ok () g' ∧ g'.operands .inputs = [[⟨2⟩, ⟨0⟩], [⟨0⟩]] ∧
      g'.ends .inputs = [[⟨1⟩], [], [⟨0⟩]] := by
  obtain ⟨g, g', hg, hrun, hseen⟩ := exists_of_adaptedIntake? twiceReadScope twiceReadLayouts
    (fun r => decide (r.2.operands .inputs = [[⟨2⟩, ⟨0⟩], [⟨0⟩]] ∧
      r.2.ends .inputs = [[⟨1⟩], [], [⟨0⟩]])) (by decide +kernel)
  exact ⟨g, g', hg, hrun, of_decide_eq_true hseen⟩

theorem transform_edge_iff_twiceRead : ∃ g g', IsIntake twiceReadScope twiceReadLayouts g ∧
    transform g = .ok () g' ∧ g'.Operand .inputs ⟨0⟩ ⟨0⟩ ∧
      (g'.Edge .inputs ⟨0⟩ ⟨0⟩ ↔ g'.Operand .inputs ⟨0⟩ ⟨0⟩ ∧ ¬g.Turns ⟨0⟩ ⟨0⟩) := by
  obtain ⟨g, g', hg, hrun, hoperands, -⟩ := twiceRead_transforms
  refine ⟨g, g', hg, hrun, ?_, (transform_edge_iff hg hrun).2.2.2 _ _⟩
  rw [Operand, hoperands]
  exact ⟨_, rfl, by decide⟩

/-- Edges and operands of an adapted graph may differ. -/
theorem transform_edge_ne_operand :
    ¬∀ (s : Scope) (layouts : SortedMap ExplicitLayout) (g g' : Graph), IsIntake s layouts g →
      transform g = .ok () g' →
        ∀ side p x, g'.Edge side p x ↔ g'.Operand side p x := by
  intro h
  obtain ⟨g, g', hg, hrun, hoperands, hends⟩ := twiceRead_transforms
  have hoperand : g'.Operand .inputs ⟨0⟩ ⟨0⟩ := by
    rw [Operand, hoperands]
    exact ⟨_, rfl, by decide⟩
  obtain ⟨es, hes, hmem⟩ := (h _ _ g g' hg hrun .inputs ⟨0⟩ ⟨0⟩).mpr hoperand
  rw [hends] at hes
  cases hes
  cases hmem with
  | tail _ hmem => cases hmem

end Graph

end Relayout
