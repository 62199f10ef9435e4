/-
# Tensors by position

What a graph that was read has for the tensor at a position of the source, where
no two tensors have one name and none has a reserved one: the tensor as it was
declared, as a shape operand if a reshape reads it as one.
-/
import Relayout.Proofs.Graph.Boundary

namespace Relayout

namespace Scope

variable {s : Scope} {name : String} {t : Nat}

/-- The tensor at a position is an input of the subgraph. -/
def IsInput (s : Scope) (t : Nat) : Prop := ∃ index ∈ s.subgraph.inputs, index.toNat = t

/-- An operator reads the tensor at a position as a shape. -/
def IsShape (s : Scope) (t : Nat) : Prop :=
  ∃ decl ∈ s.subgraph.operators, s.model.opcode decl = .reshape ∧
    Source.operandAt? decl.inputs 1 = some t

theorem mem_boundary {indices : List UInt64} (h : name ∈ s.boundary indices) :
    ∃ index ∈ indices, s.nameOf? index.toNat = some name := by
  obtain ⟨index, hindex, hname⟩ := List.mem_filterMap.mp h
  exact ⟨index, hindex, nameOf?_toNat hname⟩

theorem isShape_of_mem_shapes (h : name ∈ s.shapes) :
    ∃ t, s.IsShape t ∧ s.nameOf? t = some name := by
  obtain ⟨c, hc, hname⟩ := List.mem_flatMap.mp h
  obtain ⟨decl, hdecl, hcall⟩ := List.mem_filterMap.mp hc
  cases c with
  | conv x w b y => cases hname
  | reshape x shape y =>
      obtain ⟨hopcode, -, hshape, -⟩ := call?_eq_reshape.mp hcall
      rw [show shape = some name from Option.mem_toList.mp hname] at hshape
      have hin := optionalIn?_eq_some hshape
      rw [nameIn?_eq, Option.bind_eq_some_iff] at hin
      obtain ⟨t, ht, hn⟩ := hin
      exact ⟨t, ⟨decl, hdecl, hopcode, ht⟩, hn⟩

end Scope

namespace Graph

variable {s : Scope} {layouts : SortedMap ExplicitLayout} {g : Graph} {t : Tensor} {p : Nat}
  {name : String} {d : Source.TensorDecl}

/-- The call at a position, and its operator. -/
theorem Intake.call_at (h : Intake s layouts g) {i : Nat} {decl : Source.OperatorDecl}
    (hdecl : s.subgraph.operators[i]? = some decl) :
    ∃ c o, s.call? decl = some c ∧ s.calls[i]? = some c ∧ g.ops[i]? = some o ∧ g.Stands i c o := by
  obtain ⟨c, o, hc, ho, hstands⟩ := h.taken.stands hdecl
  exact ⟨c, o, hc, by rw [h.getElem?_calls, hdecl, Option.bind_some, hc], ho, hstands⟩

theorem Intake.decl_at (h : Intake s layouts g) {i : Nat} {c : Call} (hc : s.calls[i]? = some c) :
    ∃ decl, s.subgraph.operators[i]? = some decl ∧ s.call? decl = some c := by
  rw [h.getElem?_calls] at hc
  exact Option.bind_eq_some_iff.mp hc

/-- A tensor that an operator reads as a shape is taken for one. -/
theorem Intake.mem_shapes_iff (h : Intake s layouts g) (hs : s.Distinct)
    (hp : s.nameOf? p = some name) : name ∈ s.shapes ↔ s.IsShape p := by
  constructor
  · intro hmem
    obtain ⟨p', hshape, hp'⟩ := Scope.isShape_of_mem_shapes hmem
    exact hs.position_eq hp' hp ▸ hshape
  · rintro ⟨decl, hdecl, hopcode, hoperand⟩
    obtain ⟨i, hi⟩ := List.getElem?_of_mem hdecl
    obtain ⟨c, o, hcall, hc, -⟩ := h.call_at hi
    refine List.mem_flatMap.mpr ⟨c, List.mem_of_getElem? hc, ?_⟩
    cases c with
    | conv x w b y =>
        rw [(Scope.call?_eq_conv.mp hcall).1] at hopcode
        cases hopcode
    | reshape x shape y =>
        obtain ⟨-, -, hshape, -⟩ := Scope.call?_eq_reshape.mp hcall
        cases shape with
        | none =>
            rw [Scope.optionalIn?_eq_none hshape] at hoperand
            cases hoperand
        | some v =>
            have hin := Scope.optionalIn?_eq_some hshape
            rw [Scope.nameIn?_eq, hoperand, Option.bind_some, hp] at hin
            cases hin
            exact List.mem_singleton_self name

/-- The tensor of a name that the source gives to a position. -/
theorem Intake.tensor_at (h : Intake s layouts g) (hs : s.Distinct) (hnames : s.Unreserved)
    (ht : t ∈ g.tensors) (hp : s.nameOf? p = some t.name) :
    ∃ d type, s.subgraph.tensors[p]? = some d ∧ d.name = t.name ∧ s.Reads d type ∧
      t.bare = if t.name ∈ s.shapes then (Tensor.declared s p d type t.layout t.id).asShape
        else .declared s p d type t.layout t.id := by
  obtain ⟨b, hb, hname, heq⟩ := h.entry ht
  have hlayout : b.layout = t.layout := by
    rw [← t.bare_layout, heq]
    split <;> rfl
  have hid : b.id = t.id := by
    rw [← t.bare_id, heq]
    split <;> rfl
  cases hb with
  | @source k d type id layout hd hr =>
      obtain rfl : k = p := hs.position_eq (t := k) (by rw [Scope.nameOf?, hd, ← hname]; rfl) hp
      cases hlayout
      cases hid
      exact ⟨d, type, hd, hname, hr, heq⟩
  | vector hdecl hoptions howner =>
      refine absurd ?_ (hnames.not_reserved hp)
      rw [← hname]
      exact reserved_synthesizedName _ _

/-- A tensor of any other name is the vector of the shape that some operator
declares, and is named after the output of this operator. -/
theorem Intake.owned_vector (h : Intake s layouts g) (hnames : s.Unreserved)
    (ht : t ∈ g.tensors) (hname : Reserved t.name) :
    ∃ decl ∈ s.subgraph.operators, ∃ newShape owner, decl.options = .reshape newShape ∧
      s.nameIn? decl.outputs 0 = some owner ∧
      t.bare = constant (synthesizedName "Vector" owner) [newShape.length]
        (.ofInts .int64 (newShape.map Int32.toInt)) t.id := by
  obtain ⟨b, hb, hn, heq⟩ := h.entry ht
  have hshape : t.name ∉ s.shapes := fun hmem => by
    obtain ⟨p, -, hp⟩ := Scope.isShape_of_mem_shapes hmem
    exact hnames.not_reserved hp hname
  rw [if_neg hshape] at heq
  have hid : b.id = t.id := by rw [← t.bare_id, heq]
  cases hb with
  | source layout hd hr =>
      rw [← hn] at hname
      exact absurd hname (hnames _ (List.mem_of_getElem? hd))
  | vector hdecl hoptions howner =>
      cases hid
      exact ⟨_, hdecl, _, _, hoptions, howner, heq⟩

theorem Intake.vector_of_reserved (h : Intake s layouts g) (hnames : s.Unreserved)
    (ht : t ∈ g.tensors) (hname : Reserved t.name) :
    ∃ decl ∈ s.subgraph.operators, ∃ newShape owner, decl.options = .reshape newShape ∧
      t.bare = constant (synthesizedName "Vector" owner) [newShape.length]
        (.ofInts .int64 (newShape.map Int32.toInt)) t.id := by
  obtain ⟨decl, hdecl, newShape, owner, hoptions, -, heq⟩ := h.owned_vector hnames ht hname
  exact ⟨decl, hdecl, newShape, owner, hoptions, heq⟩

/-- The name of an input. -/
theorem Intake.mem_boundary_inputs (h : Intake s layouts g) (hp : s.nameOf? p = some name)
    (hinput : s.IsInput p) : name ∈ s.boundary s.subgraph.inputs := by
  obtain ⟨index, hindex, rfl⟩ := hinput
  have hmem : s.nameAt? index.toInt64 ∈ (s.boundary s.subgraph.inputs).map some := by
    rw [h.inputs_named]
    exact List.mem_map_of_mem hindex
  obtain ⟨name', hmem', hname⟩ := List.mem_map.mp hmem
  have := Scope.nameOf?_toNat hname.symm
  rw [hp] at this
  cases this
  exact hmem'

end Graph

end Relayout
