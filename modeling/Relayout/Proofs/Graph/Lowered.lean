/-
# Lowered graphs

A graph that was read is `Readable`: its operators stand for the calls of the
source, in order, and the first request for a name is its tag.  Where the names
that splices make up are vacant, as they are if no tensor of the source has a
reserved name, adapting lowers all calls, and a conversion comes down to the
checks of what is written.
-/
import Relayout.Proofs.Graph.Frame
import Relayout.Proofs.Operands

namespace Relayout

theorem getElem?_filterMap_of_isSome {α β : Type} {f : α → Option β} {xs : List α}
    (h : ∀ a ∈ xs, (f a).isSome = true) (i : Nat) : (xs.filterMap f)[i]? = xs[i]?.bind f := by
  induction xs generalizing i with
  | nil => rfl
  | cons a xs ih =>
      obtain ⟨b, hb⟩ := Option.isSome_iff_exists.mp (h a List.mem_cons_self)
      have ih := ih fun c hc => h c (List.mem_cons_of_mem _ hc)
      rw [List.filterMap_cons_some hb]
      cases i with
      | zero => simp [hb]
      | succ i => simpa using ih i

namespace Scope

/-- The layout of the first request for a name. -/
def tag (s : Scope) (layouts : SortedMap ExplicitLayout) (name : String) : Option Layout :=
  ((s.requests layouts).lookup name).join

/-- The calls of a source. -/
def calls (s : Scope) : List Call := s.callsOf s.subgraph.operators

end Scope

theorem Origin.name_cases {s : Scope} {b : Tensor} (h : Origin s b) :
    (∃ d ∈ s.subgraph.tensors, b.name = d.name) ∨
      ∃ owner, b.name = synthesizedName "Vector" owner := by
  cases h with
  | source layout hd hr => exact Or.inl ⟨_, List.mem_of_getElem? hd, rfl⟩
  | vector hdecl hoptions howner => exact Or.inr ⟨_, rfl⟩

namespace Graph

variable {s : Scope} {layouts : SortedMap ExplicitLayout} {g k : Graph} {t : Tensor}

/-- Every declared operator makes a call. -/
theorem Intake.call?_isSome (h : Intake s layouts g) :
    ∀ decl ∈ s.subgraph.operators, (s.call? decl).isSome = true := by
  intro decl hdecl
  obtain ⟨i, hi⟩ := List.getElem?_of_mem hdecl
  obtain ⟨c, o, hc, -⟩ := h.taken.stands hi
  rw [hc]
  rfl

/-- The call of a declared operator has its position. -/
theorem Intake.getElem?_calls (h : Intake s layouts g) (i : Nat) :
    s.calls[i]? = s.subgraph.operators[i]?.bind s.call? :=
  getElem?_filterMap_of_isSome h.call?_isSome i

theorem Intake.length_calls (h : Intake s layouts g) : s.calls.length = g.ops.length := by
  rw [h.taken.length, Scope.calls, Scope.callsOf, List.length_filterMap_eq_countP,
    List.countP_eq_length.mpr h.call?_isSome]

/-- A tensor is as it was registered. -/
theorem Intake.entry (h : Intake s layouts g) (ht : t ∈ g.tensors) :
    ∃ b, Origin s b ∧ b.name = t.name ∧
      t.bare = if t.name ∈ s.shapes then b.asShape else b := by
  obtain ⟨b, hb, heq⟩ := h.taken.registry.entry t.bare (List.mem_map_of_mem ht)
  refine ⟨b, hb, ?_, heq⟩
  rw [← t.bare_name, heq]
  split <;> rfl

theorem Intake.tag_eq (h : Intake s layouts g) (ht : t ∈ g.tensors) :
    s.tag layouts t.name = t.layout := by
  have := h.taken.registry.first t.bare (List.mem_map_of_mem ht)
  rw [Tensor.bare_name, Tensor.bare_layout] at this
  rw [Scope.tag, this, Option.join_some]

/-- A tensor has the name of a source tensor, or is the vector of a shape. -/
theorem Intake.name_cases (h : Intake s layouts g) (ht : t ∈ g.tensors) :
    (∃ d ∈ s.subgraph.tensors, t.name = d.name) ∨
      ∃ owner, t.name = synthesizedName "Vector" owner := by
  obtain ⟨b, hb, hname, -⟩ := h.entry ht
  exact hname ▸ hb.name_cases

theorem Intake.clear (h : Intake s layouts g) (hnames : s.Unreserved) : g.Clear := by
  intro t ht subject
  obtain ⟨d, hd, hname⟩ | ⟨owner, hname⟩ := h.name_cases ht
  · rw [hname]
    exact ⟨(synthesizedName_ne_of_not_reserved (hnames d hd) _ _).symm,
      (synthesizedName_ne_of_not_reserved (hnames d hd) _ _).symm⟩
  · rw [hname]
    exact ⟨synthesizedName_vector_ne_transposed _ _, synthesizedName_vector_ne_toTranspose _ _⟩

theorem Intake.vacant (h : Intake s layouts g) (hnames : s.Unreserved) : g.Vacant :=
  (h.clear hnames).vacant

theorem Intake.readable (h : Intake s layouts g) : g.Readable s.calls (s.tag layouts) where
  named := h.named
  wired := h.taken.wired
  tagged := fun t ht => h.tag_eq ht
  length := h.length_calls
  stands := fun {i c} hc => by
    rw [h.getElem?_calls] at hc
    obtain ⟨decl, hdecl, hcall⟩ := Option.bind_eq_some_iff.mp hc
    obtain ⟨c', o, hc', ho, hstands⟩ := h.taken.stands hdecl
    rw [hcall] at hc'
    cases hc'
    exact ⟨o, ho, hstands⟩
  order := by rw [h.taken.order, h.taken.length]

/-! ## The adapted graph -/

theorem Intake.populated (h : Intake s layouts g) (hvacant : g.Vacant) (hclash : ¬g.Clash) :
    Populated g g.ops.length g.ops.length g.adapted :=
  (h.readable.adaptedUpTo h hvacant hclash (Nat.le_refl _)).1

theorem Intake.arranged (h : Intake s layouts g) (hvacant : g.Vacant) (hclash : ¬g.Clash) :
    Arranged g s.calls (s.tag layouts) g.ops.length g.adapted :=
  (h.readable.adaptedUpTo h hvacant hclash (Nat.le_refl _)).2

/-- A tensor of the adapted graph is one that was read, moved, or the other form
of one. -/
theorem Populated.cases {n m : Nat} (h : Populated g n m k) {u : Tensor} (hu : u ∈ k.tensors) :
    (∃ t ∈ g.tensors, u.bare = t.bare.moved) ∨
      ∃ role x l, x ∈ g.tensors ∧ u.bare = x.spliced role l u.id ∧ x.layout = some l := by
  obtain ⟨j, hj⟩ := List.getElem?_of_mem hu
  by_cases hlt : j < g.tensors.length
  · obtain ⟨u', hu', hbare⟩ := h.base (List.getElem?_eq_getElem hlt)
    rw [hj] at hu'
    cases hu'
    exact Or.inl ⟨_, List.getElem_mem hlt, hbare⟩
  · obtain ⟨-, ⟨_, x, _, l, id, -, hr, hl, hb⟩ | ⟨_, _, y, l, id, -, hr, hl, hb⟩⟩ :=
      h.new (Nat.not_lt.mp hlt) hj <;>
    obtain rfl : u.id = id := congrArg Tensor.id hb
    · exact Or.inr ⟨_, x, l, hr.mem_left, hb, hl⟩
    · exact Or.inr ⟨_, y, l, hr.mem_right, hb, hl⟩

/-- The order in which a lowered graph is emitted. -/
def loweredOrder (g : Graph) : List OpId := (List.range g.ops.length).flatMap g.adapted.spliced

/-- The converted graph, where nothing fails. -/
def loweredGraph (g : Graph) (name : String) : Target.Graph :=
  g.adapted.targetOf name g.loweredOrder

/-- Where splices find their names vacant, an adapted graph is emitted as
`loweredGraph`, unless a check fails. -/
theorem Intake.convert_eq_ok_iff (h : Intake s layouts g) (hvacant : g.Vacant)
    (hclash : ¬g.Clash) (name : String) {graph : Target.Graph} :
    (∃ g', convert name g.adapted = .ok graph g') ↔
      (∀ node ∈ g.lowered s.calls (s.tag layouts), Target.checkNode node = .ok ()) ∧
        (∀ e ∈ g.adapted.mentioned g.loweredOrder, Target.checkTensor e.2.node = .ok ()) ∧
        (∀ e ∈ g.adapted.outputs.filterMap g.adapted.located?,
          Target.checkTensor e.2.node = .ok ()) ∧
        Target.checkGraph (g.loweredGraph name) = .ok () ∧ graph = g.loweredGraph name := by
  obtain ⟨horder, hnodes⟩ := (h.arranged hvacant hclash).emitted h.readable
  obtain ⟨order, horder', hrun⟩ := (h.adapted_sound hclash).convert_denotes name
  obtain rfl : order = g.loweredOrder := by
    rw [horder] at horder'
    exact (Except.ok.inj horder').symm
  have hiff : g.adapted.rendering name g.loweredOrder = .ok graph ↔ _ := rendering_eq_ok
    h.framed.settled
  rw [show g.adapted.nodesAt g.loweredOrder = _ from hnodes] at hiff
  refine Iff.trans ?_ hiff
  cases hrendering : g.adapted.rendering name g.loweredOrder with
  | ok graph' =>
      rw [hrendering] at hrun
      obtain ⟨g', hg'⟩ := hrun
      rw [hg']
      constructor
      · rintro ⟨g'', hg''⟩
        cases hg''
        rfl
      · intro heq
        cases heq
        exact ⟨g', rfl⟩
  | error e =>
      rw [hrendering] at hrun
      obtain ⟨g', hg'⟩ := hrun
      rw [hg']
      constructor
      · rintro ⟨g'', hg''⟩
        cases hg''
      · intro heq
        cases heq

end Graph

end Relayout
