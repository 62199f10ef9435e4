/-
# Editing a graph

What each single change does to the two arenas, as an equation.  A change of an
entry is `List.modify` at its position, a new entry goes to the end; nothing
else is touched, so what holds of the other entries needs no argument.
-/
import Relayout.Graph.Registry
import Relayout.Proofs.Step

namespace Relayout

theorem entryAt_of_getElem? {α : Type} {xs : List α} {i : Nat} {x : α} (h : xs[i]? = some x) :
    entryAt xs i = .ok x := by
  rw [entryAt, h]

theorem modify_eq_set {α : Type} {xs : List α} {i : Nat} {x : α} (h : xs[i]? = some x)
    (f : α → α) : xs.modify i f = xs.set i (f x) := by
  apply List.ext_getElem?
  intro j
  rw [List.getElem?_modify, List.getElem?_set]
  by_cases hij : i = j
  · subst hij
    obtain ⟨hlt, rfl⟩ := List.getElem?_eq_some_iff.mp h
    simp [hlt]
  · simp [hij]

theorem modify_last {α : Type} {xs : List α} {n : Nat} (h : n = xs.length) (x : α) (f : α → α) :
    (xs ++ [x]).modify n f = xs ++ [f x] := by
  subst h
  rw [modify_eq_set (x := x) (by simp), List.set_append_right _ _ (Nat.le_refl _), Nat.sub_self,
    List.set_cons_zero]

theorem modify_concat {α : Type} (xs : List α) (x : α) (f : α → α) :
    (xs ++ [x]).modify xs.length f = xs ++ [f x] := modify_last rfl x f

theorem modify_append_left {α : Type} {xs : List α} {n : Nat} (h : n < xs.length) (ys : List α)
    (f : α → α) : (xs ++ ys).modify n f = xs.modify n f ++ ys := by
  have hn := List.getElem?_eq_getElem h
  rw [modify_eq_set hn, modify_eq_set (by rw [List.getElem?_append_left h, hn]),
    List.set_append_left _ _ h]

/-- The changed entry, and the entry at the end. -/
theorem getElem?_modify_concat {α : Type} {xs : List α} {n : Nat} {x : α} (h : xs[n]? = some x)
    (f : α → α) (y : α) :
    (xs.modify n f ++ [y])[n]? = some (f x) ∧ (xs.modify n f ++ [y])[xs.length]? = some y := by
  have hlt := (List.getElem?_eq_some_iff.mp h).1
  constructor
  · rw [List.getElem?_append_left (by simpa using hlt), List.getElem?_modify_eq, h]
    rfl
  · simp

/-- An entry of a list that got one more. -/
theorem getElem?_concat_cases {α : Type} {xs : List α} {i : Nat} {y z : α}
    (h : (xs ++ [y])[i]? = some z) : xs[i]? = some z ∨ i = xs.length ∧ z = y := by
  by_cases hlt : i < xs.length
  · rw [List.getElem?_append_left hlt] at h
    exact Or.inl h
  · obtain rfl : i = xs.length := by
      have := (List.getElem?_eq_some_iff.mp h).1
      rw [List.length_append, List.length_singleton] at this
      omega
    rw [List.getElem?_concat_length] at h
    exact Or.inr ⟨rfl, (Option.some.inj h).symm⟩

/-- An entry of a list that was changed at `n` and got one more. -/
theorem getElem?_modify_concat_cases {α : Type} {xs : List α} {n i : Nat} {f : α → α} {y z : α}
    (h : (xs.modify n f ++ [y])[i]? = some z) :
    (∃ x, xs[i]? = some x ∧ z = if n = i then f x else x) ∨ i = xs.length ∧ z = y := by
  rcases getElem?_concat_cases h with h | ⟨hi, hz⟩
  · rw [List.getElem?_modify] at h
    obtain ⟨x, hx, rfl⟩ := Option.map_eq_some_iff.mp h
    refine Or.inl ⟨x, hx, ?_⟩
    by_cases hi : n = i <;> simp [hi]
  · exact Or.inr ⟨hi.trans (List.length_modify _ _ _), hz⟩

/-- A view of a changed list is the changed view. -/
theorem map_modify {α β : Type} {f : α → α} {p : α → β} {q : β → β}
    (h : ∀ a, p (f a) = q (p a)) (xs : List α) (i : Nat) :
    (xs.modify i f).map p = (xs.map p).modify i q := by
  apply List.ext_getElem?
  intro j
  rw [List.getElem?_map, List.getElem?_modify, List.getElem?_modify, List.getElem?_map]
  cases xs[j]? with
  | none => rfl
  | some x =>
      by_cases hij : i = j
      · simp [hij, h]
      · simp [hij]

/-- A view that a change does not touch stays. -/
theorem map_modify_of_eq {α β : Type} {f : α → α} {p : α → β} (h : ∀ a, p (f a) = p a)
    (xs : List α) (i : Nat) : (xs.modify i f).map p = xs.map p := by
  rw [map_modify (q := id) h, List.modify_id]

/-- A view of which a new entry shows what the old one did stays. -/
theorem map_set_of_eq {α β : Type} {xs : List α} {i : Nat} {x y : α} {p : α → β}
    (h : xs[i]? = some x) (hp : p y = p x) : (xs.set i y).map p = xs.map p := by
  obtain ⟨hlt, rfl⟩ := List.getElem?_eq_some_iff.mp h
  rw [List.map_set, hp, ← List.map_set, List.set_getElem_self]

theorem TensorId.index_inj {a b : TensorId} : a.index = b.index ↔ a = b := by
  cases a
  cases b
  simp

theorem OpId.index_inj {a b : OpId} : a.index = b.index ↔ a = b := by
  cases a
  cases b
  simp

/-- Where names are distinct, a name has one position. -/
theorem position_eq_of_name {ts : List Tensor} (h : (ts.map Tensor.name).Nodup) {i j : Nat}
    {t u : Tensor} (hi : ts[i]? = some t) (hj : ts[j]? = some u) (hname : t.name = u.name) :
    i = j := by
  have hi' : i < (ts.map Tensor.name).length := by
    rw [List.length_map]
    exact (List.getElem?_eq_some_iff.mp hi).1
  refine (List.getElem?_inj hi' h).mp ?_
  rw [List.getElem?_map, List.getElem?_map, hi, hj, Option.map_some, Option.map_some, hname]

namespace Graph

variable {g : Graph}

/-! ## Names -/

/-- The name of the tensor of an identifier. -/
def nameOf? (g : Graph) (id : TensorId) : Option String := g.tensors[id.index]?.map Tensor.name

/-- The table of names and the arena agree: a name leads to the one tensor that has it. -/
def Named (g : Graph) : Prop :=
  ∀ (name : String) (id : TensorId), g.lookup? name = some id ↔ g.nameOf? id = some name

theorem named_empty : empty.Named := by
  intro name id
  simp [lookup?, nameOf?, empty]

section Named

variable {k : Graph} {name : String} {id : TensorId} {i j : Nat} {t u : Tensor}

theorem nameOf?_of_getElem? (hi : g.tensors[i]? = some t) : g.nameOf? ⟨i⟩ = some t.name := by
  rw [nameOf?, hi, Option.map_some]

theorem nameOf?_eq (g : Graph) (id : TensorId) :
    g.nameOf? id = (g.tensors.map Tensor.name)[id.index]? := by
  rw [nameOf?, List.getElem?_map]

theorem lookup?_of_name (h : g.Named) (hi : g.tensors[i]? = some t) :
    g.lookup? t.name = some ⟨i⟩ :=
  (h _ _).mpr (nameOf?_of_getElem? hi)

theorem lookup?_eq_some (h : g.Named) (hid : g.lookup? name = some id) :
    ∃ t, g.tensors[id.index]? = some t ∧ t.name = name :=
  Option.map_eq_some_iff.mp ((h name id).mp hid)

/-- A tensor is found under its name, and under no other. -/
theorem lookup?_iff (h : g.Named) (hi : g.tensors[i]? = some t) :
    g.lookup? name = some ⟨i⟩ ↔ t.name = name := by
  rw [h name ⟨i⟩, nameOf?_of_getElem? hi, Option.some.injEq]

theorem lookup?_eq_none (h : g.Named) : g.lookup? name = none ↔ ∀ t ∈ g.tensors, t.name ≠ name := by
  constructor
  · rintro hnone t ht rfl
    obtain ⟨i, hi⟩ := List.getElem?_of_mem ht
    rw [lookup?_of_name h hi] at hnone
    cases hnone
  · intro hfree
    rw [Option.eq_none_iff_forall_ne_some]
    intro id hid
    obtain ⟨t, ht, hname⟩ := lookup?_eq_some h hid
    exact hfree t (List.mem_of_getElem? ht) hname

theorem Named.eq_of_name (h : g.Named) (hi : g.tensors[i]? = some t) (hj : g.tensors[j]? = some u)
    (hname : t.name = u.name) : i = j := by
  have hlookup := lookup?_of_name h hi
  rw [hname, lookup?_of_name h hj] at hlookup
  cases hlookup
  rfl

/-- No two tensors have one name. -/
theorem Named.nodup (h : g.Named) : (g.tensors.map Tensor.name).Nodup := by
  refine List.pairwise_iff_getElem.mpr fun i j hi hj hij heq => ?_
  rw [List.length_map] at hi hj
  rw [List.getElem_map, List.getElem_map] at heq
  exact Nat.ne_of_lt hij
    (h.eq_of_name (List.getElem?_eq_getElem hi) (List.getElem?_eq_getElem hj) heq)

/-- Changes that keep all names and leave the table alone. -/
theorem Named.of_names (h : g.Named)
    (hnames : k.tensors.map Tensor.name = g.tensors.map Tensor.name) (hby : k.byName = g.byName) :
    k.Named := by
  intro name id
  rw [lookup?, hby, nameOf?_eq, hnames, ← nameOf?_eq]
  exact h name id

end Named

/-! ## One more tensor -/

/-- The graph with one more tensor. -/
def adding (g : Graph) (t : Tensor) : Graph :=
  { g with tensors := g.tensors ++ [t], byName := g.byName.insert t.name ⟨g.tensors.length⟩ }

@[simp] theorem tensors_adding (g : Graph) (t : Tensor) :
    (g.adding t).tensors = g.tensors ++ [t] := rfl
@[simp] theorem ops_adding (g : Graph) (t : Tensor) : (g.adding t).ops = g.ops := rfl

theorem lookup?_adding (t : Tensor) (name : String) : (g.adding t).lookup? name =
    if name = t.name then some ⟨g.tensors.length⟩ else g.lookup? name :=
  SortedMap.find?_insert ..

theorem Named.adding (h : g.Named) {t : Tensor} (hfree : g.lookup? t.name = none) :
    (g.adding t).Named := by
  intro name id
  rw [lookup?_adding, nameOf?, Option.map_eq_some_iff]
  constructor
  · intro hid
    split at hid
    · rename_i hname
      cases hid
      exact ⟨t, List.getElem?_concat_length, hname.symm⟩
    · obtain ⟨u, hu, hname⟩ := lookup?_eq_some h hid
      refine ⟨u, ?_, hname⟩
      exact (List.getElem?_append_left (List.getElem?_eq_some_iff.mp hu).1).trans hu
  · rintro ⟨u, hu, rfl⟩
    rcases getElem?_concat_cases hu with hu | ⟨hid, rfl⟩
    · rw [if_neg ((lookup?_eq_none h).mp hfree u (List.mem_of_getElem? hu))]
      exact lookup?_of_name h hu
    · rw [if_pos rfl, ← hid]

/-! ## Reading -/

theorem run_tensor {id : TensorId} {t : Tensor} (h : g.tensors[id.index]? = some t) :
    tensor id g = .ok t g := by
  rw [tensor, Step.run_bind_of_ok (Step.run_get g), entryAt_of_getElem? h]
  rfl

theorem run_op {id : OpId} {o : Operator} (h : g.ops[id.index]? = some o) :
    op id g = .ok o g := by
  rw [op, Step.run_bind_of_ok (Step.run_get g), entryAt_of_getElem? h]
  rfl

/-! ## Changing -/

theorem run_onTensor {α : Type} {id : TensorId} {t t' : Tensor} {step : Step Tensor α} {a : α}
    (ht : g.tensors[id.index]? = some t) (h : step t = .ok a t') :
    onTensor id step g = .ok a { g with tensors := g.tensors.set id.index t' } := by
  simp only [onTensor, Step.onEntry, ht, h]

theorem run_onOp {α : Type} {id : OpId} {o o' : Operator} {step : Step Operator α} {a : α}
    (ho : g.ops[id.index]? = some o) (h : step o = .ok a o') :
    onOp id step g = .ok a { g with ops := g.ops.set id.index o' } := by
  simp only [onOp, Step.onEntry, ho, h]

theorem run_changeTensor {id : TensorId} (h : id.index < g.tensors.length)
    (f : Tensor → Tensor) :
    changeTensor id f g = .ok () { g with tensors := g.tensors.modify id.index f } := by
  have ht := List.getElem?_eq_getElem h
  rw [modify_eq_set ht]
  exact run_onTensor ht (Step.run_modify f _)

theorem run_changeOp {id : OpId} (h : id.index < g.ops.length) (f : Operator → Operator) :
    changeOp id f g = .ok () { g with ops := g.ops.modify id.index f } := by
  have ho := List.getElem?_eq_getElem h
  rw [modify_eq_set ho]
  exact run_onOp ho (Step.run_modify f _)

theorem run_updateTensor {id : TensorId} {t : Tensor} {change : Tensor → Except Violation Tensor}
    {f : Tensor → Tensor} (ht : g.tensors[id.index]? = some t) (h : change t = .ok (f t)) :
    updateTensor id change g = .ok () { g with tensors := g.tensors.modify id.index f } := by
  rw [modify_eq_set ht]
  exact run_onTensor ht (Step.run_update h)

theorem run_updateOp {id : OpId} {o : Operator} {change : Operator → Except Violation Operator}
    {f : Operator → Operator} (ho : g.ops[id.index]? = some o) (h : change o = .ok (f o)) :
    updateOp id change g = .ok () { g with ops := g.ops.modify id.index f } := by
  rw [modify_eq_set ho]
  exact run_onOp ho (Step.run_update h)

/-- A change that is not possible breaks an invariant. -/
theorem run_updateTensor_error {id : TensorId} {t : Tensor} {v : Violation}
    {change : Tensor → Except Violation Tensor} (ht : g.tensors[id.index]? = some t)
    (h : change t = .error v) :
    ∃ g', updateTensor id change g = .error (.invariant v) g' := by
  refine ⟨{ g with tensors := g.tensors.set id.index t }, ?_⟩
  simp only [updateTensor, onTensor, Step.onEntry, ht, Step.update, Step.run_bind, Step.run_get, h,
    Step.run_liftViolation_error]

theorem run_addTensor {name : String} {make : TensorId → Tensor}
    (h : (make ⟨g.tensors.length⟩).name = name) :
    addTensor name make g = .ok ⟨g.tensors.length⟩ (g.adding (make ⟨g.tensors.length⟩)) := by
  subst h
  rfl

theorem run_addOp (o : Operator) (g : Graph) :
    addOp o g = .ok ⟨g.ops.length⟩ { g with ops := g.ops ++ [o] } := rfl

theorem run_synthesize (kind : Kind) (name : String) (g : Graph) :
    synthesize kind name g = .ok ⟨g.ops.length⟩ { g with
      ops := g.ops ++ [.fresh none name kind]
      created := g.created ++ [⟨g.ops.length⟩] } := rfl

theorem run_warn (w : Warning) (g : Graph) :
    warn w g = .ok () { g with warnings := g.warnings ++ [w] } := rfl

end Graph

end Relayout
