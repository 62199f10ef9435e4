/-
# Well-formed sources

A source is well-formed if its tensors have names of their own, every operand is
there before it is read, and every result is written once.  Once such a source
was read nothing fails any more: the graph is adapted, and what is written
passes all checks.
-/
import Relayout.Proofs.Graph.Origins
import Relayout.Proofs.Violations

namespace Relayout

/-! ## Tensors that pass -/

/-- A tensor whose converted form passes the checks. -/
structure Tensor.Writable (t : Tensor) : Prop where
  named : t.name ≠ ""
  extents : ∀ d ∈ t.shape, d < 2 ^ 63
  typed : ∀ b, t.data = some b → t.elementType = some b.elementType
  filled : t.Filled

namespace Tensor.Writable

variable {t : Tensor} {l : Layout}

theorem checkTensor (h : t.Writable) : Target.checkTensor t.node = .ok () := by
  refine Target.checkTensor_eq_ok.mpr ⟨h.named, fun d hd => ?_, fun b hb => ⟨?_, ?_⟩⟩
  · obtain ⟨n, hn, rfl⟩ := List.mem_map.mp hd
    rw [Int64.toInt_ofNat_of_lt (h.extents n hn)]
    omega
  · change _ = t.elementType.getD .float32
    rw [h.typed b hb, Option.getD_some]
  · change _ = Target.dimsCount (t.shape.map Int64.ofNat)
    rw [Target.dimsCount_map h.extents, h.filled b hb]
    rfl

theorem permutedDims_lt {perm dims : List Nat} (h : ∀ d ∈ dims, d < 2 ^ 63) :
    ∀ d ∈ permutedDims perm dims, d < 2 ^ 63 := by
  intro d hd
  obtain ⟨axis, -, rfl⟩ := List.mem_map.mp hd
  rw [List.getD_eq_getElem?_getD]
  cases hax : dims[axis]? with
  | none => simp
  | some e => exact h e (List.mem_of_getElem? hax)

theorem moved (h : t.Writable) (hm : t.Movable) : t.moved.Writable := by
  refine moved_cases t h ⟨h.named, h.extents, h.typed, h.filled⟩ fun l hl hmatch => ?_
  have hrank : t.rank = l.rank := (hm l hl).resolve_left (by simp [hmatch])
  refine ⟨h.named, permutedDims_lt h.extents, fun b hb => ?_,
    filled_of_transposed h.filled hrank⟩
  obtain ⟨b', hb', rfl⟩ := Option.map_eq_some_iff.mp hb
  exact h.typed b' hb'

theorem spliced (h : t.Writable) (hm : t.Movable) (role : String) (id : TensorId) :
    (t.spliced role l id).Writable where
  named := synthesizedName_ne_empty role t.name
  extents := permutedDims_lt (h.moved hm).extents
  typed := fun _ hb => by cases hb
  filled := fun _ hb => by cases hb

theorem asShape (h : t.Writable) (hshape : t.asShape.shape = t.shape) : t.asShape.Writable where
  named := h.named
  extents := by rw [hshape]; exact h.extents
  typed := fun b hb => by
    obtain ⟨b', -, rfl⟩ := Option.map_eq_some_iff.mp hb
    rw [Buffer.elementType_cast]
    rfl
  filled := h.filled.asShape

end Tensor.Writable

namespace Scope

variable {s : Scope}

/-- There are bytes behind the tensor at a position. -/
def HasData (s : Scope) (t : Nat) : Prop :=
  ∃ d bytes, s.subgraph.tensors[t]? = some d ∧ s.model.bufferData d = .ok bytes ∧ bytes ≠ []

/-- Operator `i` writes the tensor at a position. -/
def WrittenBy (s : Scope) (i t : Nat) : Prop :=
  ∃ decl slot, s.subgraph.operators[i]? = some decl ∧
    Source.operandAt? decl.outputs slot = some t

/-- A source in which every value has one name, and one place where it comes
from. -/
structure WellFormed (s : Scope) : Prop where
  named : ∀ d ∈ s.subgraph.tensors, d.name ≠ ""
  unreserved : s.Unreserved
  distinct : s.Distinct
  /-- What an operator reads is an input, a constant, or was written before. -/
  read : ∀ {i decl slot t}, s.subgraph.operators[i]? = some decl →
    Source.operandAt? decl.inputs slot = some t →
    s.IsInput t ∨ s.HasData t ∨ ∃ j, j < i ∧ s.WrittenBy j t
  /-- What an operator writes is neither of these, and nothing else writes it. -/
  written : ∀ {i t}, s.WrittenBy i t →
    ¬s.IsInput t ∧ ¬s.HasData t ∧ ∀ j, s.WrittenBy j t → j = i
  produced : ∀ index ∈ s.subgraph.outputs,
    s.IsInput index.toNat ∨ ∃ i, s.WrittenBy i index.toNat
  /-- Shape operands are vectors, or scalars. -/
  vectors : ∀ t d, s.IsShape t → s.subgraph.tensors[t]? = some d → d.shape.length ≤ 1

namespace WellFormed

open Relayout.Graph

variable {layouts : SortedMap ExplicitLayout} {g : Graph} {t u : Tensor}

/-! ## Nothing clashes -/

/-- Shape operands were not flattened. -/
theorem shape_eq (hs : s.WellFormed) (h : Intake s layouts g) {p : Nat} (ht : t ∈ g.tensors)
    (hp : s.nameOf? p = some t.name) :
    ∃ d type, s.subgraph.tensors[p]? = some d ∧ s.Reads d type ∧ t.shape = d.extents ∧
      t.bare.sourceIndex = some p := by
  obtain ⟨d, type, hd, -, hr, heq⟩ := h.tensor_at hs.distinct hs.unreserved ht hp
  refine ⟨d, type, hd, hr, ?_, by rw [heq]; split <;> rfl⟩
  rw [← t.bare_shape, heq]
  split
  · rename_i hmem
    have hrank := hs.vectors p d ((h.mem_shapes_iff hs.distinct hp).mp hmem) hd
    rw [Tensor.asShape, if_neg fun hlong => ?_]
    · rfl
    · have := hlong.2
      rw [Tensor.rank, Tensor.declared, d.length_extents] at this
      omega
  · rfl

/-- Every tensor has the rank of its layout. -/
theorem rank_eq (hs : s.WellFormed) (h : Intake s layouts g) (ht : t ∈ g.tensors) {l : Layout}
    (hl : t.layout = some l) : t.rank = l.rank := by
  by_cases hname : Reserved t.name
  · obtain ⟨decl, -, newShape, owner, -, heq⟩ := h.vector_of_reserved hs.unreserved ht hname
    rw [← t.bare_layout, heq] at hl
    cases hl
  · obtain ⟨d, hd, hn⟩ := (h.name_cases ht).resolve_right fun ⟨owner, hn⟩ =>
      hname (hn ▸ reserved_synthesizedName _ _)
    obtain ⟨p, hp⟩ := List.getElem?_of_mem hd
    obtain ⟨d', type, hd', -, hshape, hindex⟩ := hs.shape_eq h ht
      (p := p) (by rw [nameOf?, hp, hn]; rfl)
    have := h.taken.ranked t.bare (List.mem_map_of_mem ht) p d' l hindex hd' hl
    rw [Tensor.rank, hshape, d'.length_extents, this]

theorem not_clash (hs : s.WellFormed) (h : Intake s layouts g) : ¬g.Clash := by
  have hranked : ∀ t ∈ g.tensors, ¬t.Misranked := by
    rintro t ht ⟨l, hl, hne⟩
    exact hne (hs.rank_eq h ht hl)
  have hclear := h.clear hs.unreserved
  rintro (⟨t, ht, hnot⟩ | ⟨n, x, y, hr, hc | hc⟩)
  · exact hnot fun l hl => Or.inr (hs.rank_eq h ht hl)
  · rcases hc.2 with hm | ⟨t, ht, hname, -⟩
    · exact hranked x hr.mem_left hm
    · exact (hclear t ht _).1 hname
  · rcases hc.2 with hm | ⟨t, ht, hname, -⟩
    · exact hranked y hr.mem_right hm
    · exact (hclear t ht _).2 hname

/-! ## Every tensor passes -/

theorem extents_lt (d : Source.TensorDecl) : ∀ n ∈ d.extents, n < 2 ^ 63 := by
  intro n hn
  obtain ⟨i, -, rfl⟩ := List.mem_map.mp hn
  have := i.toInt_lt
  omega

/-- A tensor that was read passes the checks. -/
theorem writable (hs : s.WellFormed) (hstorable : s.subgraph.Storable) (h : Intake s layouts g)
    (ht : t ∈ g.tensors) : t.bare.Writable := by
  by_cases hname : Reserved t.name
  · obtain ⟨decl, hdecl, newShape, owner, hoptions, heq⟩ :=
      h.vector_of_reserved hs.unreserved ht hname
    rw [heq]
    refine ⟨synthesizedName_ne_empty _ _, fun d hd => ?_, fun b hb => ?_, ?_⟩
    · obtain rfl := List.mem_singleton.mp hd
      exact hstorable.newShapes decl hdecl newShape hoptions
    · cases hb
      rfl
    · rintro b ⟨⟩
      simp [Buffer.length, Buffer.ofInts, Graph.constant, Tensor.elementCount]
  · obtain ⟨d, hd, hn⟩ := (h.name_cases ht).resolve_right
      (not_exists.mpr fun owner hn => hname (hn ▸ reserved_synthesizedName _ _))
    obtain ⟨p, hp⟩ := List.getElem?_of_mem hd
    have hat : s.nameOf? p = some t.name := by rw [nameOf?, hp, hn]; rfl
    obtain ⟨d', type, hd', hn', hr, heq⟩ := h.tensor_at hs.distinct hs.unreserved ht hat
    obtain ⟨d'', -, hd'', -, hshape, -⟩ := hs.shape_eq h ht hat
    rw [hd'] at hd''
    cases hd''
    have hdeclared : (Tensor.declared s p d' type t.layout t.id).Writable :=
      ⟨hs.named d' (List.mem_of_getElem? hd'), extents_lt d', fun b hb => by
        rw [constant?_elementType hr.converted hb]; rfl, Tensor.filled_declared hr⟩
    rw [← t.bare_shape, heq] at hshape
    rw [heq]
    split
    · rename_i hmem
      rw [if_pos hmem] at hshape
      exact hdeclared.asShape hshape
    · exact hdeclared

/-- So does every tensor of the adapted graph. -/
theorem adapted_writable (hs : s.WellFormed) (hstorable : s.subgraph.Storable)
    (h : Intake s layouts g) (hu : u ∈ g.adapted.tensors) :
    Target.checkTensor u.node = .ok () := by
  have hclash := hs.not_clash h
  have hmovable : ∀ t ∈ g.tensors, t.Movable := fun t ht l hl => Or.inr (hs.rank_eq h ht hl)
  change Target.checkTensor u.bare.node = .ok ()
  obtain ⟨t, ht, hbare⟩ | ⟨role, x, l, hx, hbare, -⟩ :=
    (h.populated (h.vacant hs.unreserved) hclash).cases hu
  · rw [hbare]
    exact ((hs.writable hstorable h ht).moved (hmovable t ht)).checkTensor
  · rw [hbare]
    have hwritable := hs.writable hstorable h hx
    have hself : x.Writable :=
      ⟨hwritable.named, hwritable.extents, hwritable.typed, hwritable.filled⟩
    exact (hself.spliced (hmovable x hx) role u.id).checkTensor

/-! ## Every value is there -/

/-- Whatever the source gives a name to, the data of a tensor come from bytes. -/
theorem hasData_of_given (hs : s.WellFormed) (h : Intake s layouts g) {p : Nat} {name : String}
    (hp : s.nameOf? p = some name) (hdata : ∃ t ∈ g.tensors, t.name = name ∧ t.data.isSome = true) :
    s.HasData p := by
  obtain ⟨t, ht, rfl, hsome⟩ := hdata
  obtain ⟨d, type, hd, -, hr, heq⟩ := h.tensor_at hs.distinct hs.unreserved ht hp
  obtain ⟨bytes, hbytes, hconst⟩ := hr.constant
  have hisSome : (s.constant? d).isSome = true := by
    rw [← t.bare_data, heq] at hsome
    split at hsome
    · simpa [Tensor.asShape, Tensor.coerced, Tensor.declared] using hsome
    · exact hsome
  refine ⟨d, bytes, hd, hbytes, fun hnil => ?_⟩
  rw [hisSome, hnil] at hconst
  cases hconst

theorem given_of_hasData (hs : s.WellFormed) (h : Intake s layouts g) {p : Nat}
    (ht : t ∈ g.tensors) (hp : s.nameOf? p = some t.name) (hdata : s.HasData p) :
    t.data.isSome = true := by
  obtain ⟨d, type, hd, -, hr, heq⟩ := h.tensor_at hs.distinct hs.unreserved ht hp
  obtain ⟨d', bytes, hd', hbytes, hne⟩ := hdata
  rw [hd] at hd'
  cases hd'
  obtain ⟨bytes', hbytes', hconst⟩ := hr.constant
  rw [hbytes] at hbytes'
  cases hbytes'
  have hisSome : (s.constant? d).isSome = true := by
    rw [hconst]
    simpa using hne
  rw [← t.bare_data, heq]
  split
  · simpa [Tensor.asShape, Tensor.coerced, Tensor.declared] using hisSome
  · exact hisSome

/-- A call writes what its operator writes. -/
theorem writtenBy_iff (hs : s.WellFormed) (h : Intake s layouts g) {i p : Nat} {name : String}
    (hp : s.nameOf? p = some name) :
    s.WrittenBy i p ↔ ∃ c, s.calls[i]? = some c ∧ c.output = name := by
  constructor
  · rintro ⟨decl, slot, hdecl, hoperand⟩
    obtain ⟨c, -, hcall, hc, -⟩ := h.call_at hdecl
    obtain ⟨p', hp', hiff⟩ := operandAt?_output hcall
    obtain ⟨-, rfl⟩ := (hiff slot p).mp hoperand
    rw [hp] at hp'
    exact ⟨c, hc, (Option.some.inj hp').symm⟩
  · rintro ⟨c, hc, rfl⟩
    obtain ⟨decl, hdecl, hcall⟩ := h.decl_at hc
    obtain ⟨p', hp', hiff⟩ := operandAt?_output hcall
    obtain rfl := hs.distinct.position_eq hp hp'
    exact ⟨decl, 0, hdecl, (hiff 0 p).mpr ⟨rfl, rfl⟩⟩

/-- What a call reads is a tensor of the graph. -/
theorem tensor_of_input (h : Intake s layouts g) {i : Nat} {c : Call}
    (hc : s.calls[i]? = some c) {name : String} (hname : name ∈ c.inputs) :
    ∃ t ∈ g.tensors, t.name = name := by
  obtain ⟨decl, hdecl, hcall⟩ := h.decl_at hc
  obtain ⟨c', o, hcall', -, -, hstands⟩ := h.call_at hdecl
  rw [hcall] at hcall'
  cases hcall'
  have hmem : some name ∈ o.inputs.map g.nameOf? := by
    rw [hstands.inputs]
    exact List.mem_map_of_mem hname
  obtain ⟨id, -, hid⟩ := List.mem_map.mp hmem
  obtain ⟨t, ht, heq⟩ := Option.map_eq_some_iff.mp hid
  exact ⟨t, List.mem_of_getElem? ht, heq⟩

theorem flows (hs : s.WellFormed) (h : Intake s layouts g) : Flows s.calls (GivenIn s g) where
  reads := by
    intro i c hc name hname
    obtain ⟨t, ht, rfl⟩ := tensor_of_input h hc hname
    obtain ⟨decl, hdecl, hcall⟩ := h.decl_at hc
    obtain ⟨slot, p, hoperand, hp⟩ | heq := operandAt?_input hcall hname
    · rcases hs.read hdecl hoperand with hin | hdata | ⟨j, hj, hwritten⟩
      · exact Or.inl (Or.inl (h.mem_boundary_inputs hp hin))
      · exact Or.inl (Or.inr ⟨t, ht, rfl, hs.given_of_hasData h ht hp hdata⟩)
      · obtain ⟨c', hc', heq⟩ := (hs.writtenBy_iff h hp).mp hwritten
        exact Or.inr ⟨j, c', hj, hc', heq⟩
    · obtain ⟨_, _, _, _, _, hbare⟩ := h.vector_of_reserved hs.unreserved ht
        (heq ▸ reserved_synthesizedName _ _)
      exact Or.inl (Or.inr ⟨t, ht, rfl, by rw [← t.bare_data, hbare]; rfl⟩)
  fresh := by
    intro i c hc
    obtain ⟨decl, hdecl, hcall⟩ := h.decl_at hc
    obtain ⟨p, hp, -⟩ := operandAt?_output hcall
    obtain ⟨hinput, hdata, -⟩ := hs.written ((hs.writtenBy_iff h hp).mpr ⟨c, hc, rfl⟩)
    rintro (hmem | hgiven)
    · obtain ⟨index, hindex, hname⟩ := mem_boundary hmem
      exact hinput ⟨index, hindex, hs.distinct.position_eq hname hp⟩
    · exact hdata (hs.hasData_of_given h hp hgiven)
  once := by
    intro i j c c' hc hc' hlt heq
    obtain ⟨decl, hdecl, hcall⟩ := h.decl_at hc
    obtain ⟨p, hp, -⟩ := operandAt?_output hcall
    have := (hs.written ((hs.writtenBy_iff h hp).mpr ⟨c, hc, rfl⟩)).2.2 j
      ((hs.writtenBy_iff h hp).mpr ⟨c', hc', heq⟩)
    omega
  named := by
    intro i c hc
    obtain ⟨decl, hdecl, hcall⟩ := h.decl_at hc
    obtain ⟨p, hp, -⟩ := operandAt?_output hcall
    obtain ⟨d, hd, hname⟩ := Option.map_eq_some_iff.mp hp
    exact ⟨hname ▸ hs.named d (List.mem_of_getElem? hd), hs.unreserved.not_reserved hp⟩
  unspliced := by
    intro subject
    have hclear := h.clear hs.unreserved
    have hno : ∀ role, (∀ t ∈ g.tensors, t.name ≠ synthesizedName role subject) →
        ¬GivenIn s g (synthesizedName role subject) := by
      rintro role hfree (hmem | ⟨t, ht, hname, -⟩)
      · obtain ⟨index, -, hname⟩ := mem_boundary hmem
        exact hs.unreserved.not_reserved hname (reserved_synthesizedName _ _)
      · exact hfree t ht hname
    exact ⟨hno _ fun t ht => (hclear t ht _).1, hno _ fun t ht => (hclear t ht _).2⟩

/-! ## Nothing fails -/

theorem checkGraph (hs : s.WellFormed) (h : Intake s layouts g) (name : String) :
    Target.checkGraph (g.loweredGraph name) = .ok () := by
  have hclash := hs.not_clash h
  have hstart : ∀ v, v ∈ startNames (g.loweredGraph name) ↔ _ :=
    fun v => h.mem_startNames (h.vacant hs.unreserved) hclash
  obtain ⟨defined, hcheck, hdefined⟩ := h.readable.checkNodes_lowered (hs.flows h)
    (fun v hv => ((hstart v).mp hv).1)
    fun node hnode v hv hgiven => (hstart v).mpr ⟨hgiven, Or.inr ⟨node, hnode, Or.inl hv⟩⟩
  have hnodes : (g.loweredGraph name).nodes = g.lowered s.calls (s.tag layouts) :=
    h.nodesAt_loweredOrder (h.vacant hs.unreserved) hclash
  refine Target.checkGraph_eq_ok.mpr ⟨defined, by rw [hnodes]; exact hcheck, fun t ht => ?_⟩
  obtain ⟨e, he, rfl⟩ := List.mem_map.mp ht
  obtain ⟨id, hid, hentry⟩ := List.mem_filterMap.mp he
  obtain ⟨rfl, hu⟩ := mem_of_located? hentry
  -- an output is an input, or some operator wrote it
  have hmem : e.2.name ∈ s.boundary s.subgraph.outputs := by
    rw [← h.adapted_outputs]
    exact ((h.adapted_named hclash).mem_filterMap_nameOf? hu).mpr hid
  obtain ⟨index, hindex, hp⟩ := mem_boundary hmem
  change e.2.name ∈ defined
  rcases hs.produced index hindex with hin | ⟨i, hwritten⟩
  · have hboundary := h.mem_boundary_inputs hp hin
    exact hdefined.start _ ((hstart _).mpr ⟨Or.inl hboundary, Or.inl hboundary⟩)
  · obtain ⟨c, hc, heq⟩ := (hs.writtenBy_iff h hp).mp hwritten
    have hi : i < g.ops.length := by
      rw [← h.length_calls]
      exact (List.getElem?_eq_some_iff.mp hc).1
    rw [← heq]
    exact hdefined.there hi hc _ (output_mem_made c)

end WellFormed

open Relayout.Graph in
/-- Once a well-formed source was read, it is adapted and emitted without
fault. -/
theorem WellFormed.converts {s : Scope} {layouts : SortedMap ExplicitLayout} {g : Graph}
    (hs : s.WellFormed) (hstorable : s.subgraph.Storable) (h : IsIntake s layouts g) :
    ∃ g', transform g = .ok () g' ∧
      ∀ name, ∃ graph g'', Graph.convert name g' = .ok graph g'' := by
  have hclash := hs.not_clash h.intake
  refine ⟨g.adapted, h.intake.run_transform hclash, fun name => ⟨g.loweredGraph name, ?_⟩⟩
  have hcheck := hs.checkGraph h.intake name
  obtain ⟨defined, hnodes, -⟩ := Target.checkGraph_eq_ok.mp hcheck
  rw [show (g.loweredGraph name).nodes = g.lowered s.calls (s.tag layouts) from
    h.intake.nodesAt_loweredOrder (h.intake.vacant hs.unreserved) hclash] at hnodes
  have htensor : ∀ {ids : List TensorId}, ∀ e ∈ ids.filterMap g.adapted.located?,
      Target.checkTensor e.2.node = .ok () := fun e he => by
    obtain ⟨id, -, hentry⟩ := List.mem_filterMap.mp he
    exact hs.adapted_writable hstorable h.intake
      (List.mem_of_getElem? (mem_of_located? hentry).2)
  exact (h.intake.convert_eq_ok_iff (h.intake.vacant hs.unreserved) hclash name).mpr
    ⟨Target.checkNode_of_checkNodes hnodes, htensor, htensor, hcheck, rfl⟩

/-- A convolution, and a reshape of what it writes. -/
def sampleSubgraph : Source.Subgraph where
  name := none
  tensors := [⟨"x", [1, 2, 2, 1], .float32, 0, none⟩, ⟨"w", [1, 1, 1, 1], .float32, 1, none⟩,
    ⟨"y", [1, 2, 2, 1], .float32, 0, none⟩, ⟨"s", [2], .int32, 2, none⟩,
    ⟨"z", [1, 4], .float32, 0, none⟩]
  operators := [⟨0, [0, 1], [2], .conv2d ⟨.same, 1, 1, 1, 1, .none⟩⟩, ⟨1, [2, 3], [4], .none⟩]
  inputs := [0]
  outputs := [4]

def sampleModel : Source.Model where
  version := 3
  description := none
  operatorCodes := [.conv2d, .reshape]
  buffers := [[], [0, 0, 128, 63], [1, 0, 0, 0, 4, 0, 0, 0]]
  subgraphs := [sampleSubgraph]

def sampleScope : Scope := ⟨sampleModel, sampleSubgraph, true⟩

theorem sampleScope_unreserved : sampleScope.Unreserved := by
  unfold Unreserved
  decide

theorem sampleScope_distinct : sampleScope.Distinct := by
  unfold Distinct
  decide

theorem sampleSubgraph_storable : sampleSubgraph.Storable where
  tensors := by decide
  newShapes := by
    intro decl hdecl newShape hoptions
    rcases List.mem_pair.mp hdecl with rfl | rfl <;> cases hoptions

theorem sampleScope_writtenBy {i t : Nat} (h : sampleScope.WrittenBy i t) :
    i = 0 ∧ t = 2 ∨ i = 1 ∧ t = 4 := by
  obtain ⟨decl, slot, hdecl, hoperand⟩ := h
  match i, slot with
  | 0, 0 => cases hdecl; cases hoperand; exact Or.inl ⟨rfl, rfl⟩
  | 1, 0 => cases hdecl; cases hoperand; exact Or.inr ⟨rfl, rfl⟩
  | 0, _ + 1 => cases hdecl; cases hoperand
  | 1, _ + 1 => cases hdecl; cases hoperand
  | _ + 2, _ => cases hdecl

theorem sampleScope_wellFormed : sampleScope.WellFormed where
  named := by decide
  unreserved := sampleScope_unreserved
  distinct := sampleScope_distinct
  read := by
    intro i decl slot t hdecl hoperand
    match i, slot with
    | 0, 0 => cases hdecl; cases hoperand; exact Or.inl ⟨0, by decide, rfl⟩
    | 0, 1 => cases hdecl; cases hoperand; exact Or.inr (Or.inl ⟨_, _, rfl, rfl, by decide⟩)
    | 1, 0 => cases hdecl; cases hoperand; exact Or.inr (Or.inr ⟨0, by decide, _, 0, rfl, rfl⟩)
    | 1, 1 => cases hdecl; cases hoperand; exact Or.inr (Or.inl ⟨_, _, rfl, rfl, by decide⟩)
    | 0, _ + 2 => cases hdecl; cases hoperand
    | 1, _ + 2 => cases hdecl; cases hoperand
    | _ + 2, _ => cases hdecl
  written := by
    intro i t h
    have hi := sampleScope_writtenBy h
    refine ⟨?_, ?_, fun j hj => ?_⟩
    · rintro ⟨index, hindex, rfl⟩
      obtain rfl := List.mem_singleton.mp hindex
      simp at hi
    · rintro ⟨d, bytes, hd, hbytes, hne⟩
      obtain ⟨-, rfl⟩ | ⟨-, rfl⟩ := hi <;>
      · cases hd
        cases hbytes
        exact hne rfl
    · have := sampleScope_writtenBy hj
      omega
  produced := by
    intro index hindex
    obtain rfl := List.mem_singleton.mp hindex
    exact Or.inr ⟨1, _, 0, rfl, rfl⟩
  vectors := by
    rintro t d ⟨decl, hdecl, hopcode, hoperand⟩ hd
    rcases List.mem_pair.mp hdecl with rfl | rfl
    · cases hopcode
    · cases hoperand
      cases hd
      decide

open Relayout.Graph in
theorem wellFormed_converts_sample :
    ∃ g, IsIntake sampleScope .empty g ∧ ∃ g', transform g = .ok () g' ∧
      ∀ name, ∃ graph g'', Graph.convert name g' = .ok graph g'' := by
  have hread : (match (do applyExplicitLayouts sampleScope .empty; parse sampleScope :
      Step Graph Unit) .empty with
      | .ok _ _ => true
      | .error _ _ => false) = true := by
    decide +kernel
  split at hread
  · rename_i g hg
    exact ⟨g, hg, WellFormed.converts sampleScope_wellFormed sampleSubgraph_storable hg⟩
  · cases hread

end Scope

end Relayout
