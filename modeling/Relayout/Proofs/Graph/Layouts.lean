/-
# Which layout a tensor gets

The layout of a tensor is decided by its first request, whichever that is.  In
a strict scope every request that names a layout names the same one, so the
layout can be read off the source: the explicit one, or else what convolutions
ask for.
-/
import Relayout.Proofs.Graph.Origins

namespace Relayout

/-- An operator writes the tensor at a position. -/
def Source.OperatorDecl.Writes (decl : Source.OperatorDecl) (t : Nat) : Prop :=
  ∃ index ∈ decl.outputs, 0 ≤ index.toInt ∧ index.toInt.toNat = t

instance (decl : Source.OperatorDecl) (t : Nat) : Decidable (decl.Writes t) :=
  inferInstanceAs (Decidable (∃ index ∈ decl.outputs, 0 ≤ index.toInt ∧ index.toInt.toNat = t))

namespace Scope

variable {s : Scope} {layouts : SortedMap ExplicitLayout} {t p : Nat} {l : Layout}
  {name : String} {d : Source.TensorDecl}

/-- A convolution reads the tensor at a position as its activations, or writes
it. -/
def IsActivation (s : Scope) (t : Nat) : Prop :=
  ∃ decl ∈ s.subgraph.operators, s.model.opcode decl = .conv2d ∧
    (Source.operandAt? decl.inputs 0 = some t ∨ decl.Writes t)

/-- A convolution reads the tensor at a position as its weights. -/
def IsWeights (s : Scope) (t : Nat) : Prop :=
  ∃ decl ∈ s.subgraph.operators, s.model.opcode decl = .conv2d ∧
    Source.operandAt? decl.inputs 1 = some t

instance (s : Scope) (t : Nat) : Decidable (s.IsActivation t) :=
  inferInstanceAs (Decidable (∃ decl ∈ s.subgraph.operators, s.model.opcode decl = .conv2d ∧
    (Source.operandAt? decl.inputs 0 = some t ∨ decl.Writes t)))

instance (s : Scope) (t : Nat) : Decidable (s.IsWeights t) :=
  inferInstanceAs (Decidable (∃ decl ∈ s.subgraph.operators, s.model.opcode decl = .conv2d ∧
    Source.operandAt? decl.inputs 1 = some t))

instance (s : Scope) (t : Nat) : Decidable (s.IsShape t) :=
  inferInstanceAs (Decidable (∃ decl ∈ s.subgraph.operators, s.model.opcode decl = .reshape ∧
    Source.operandAt? decl.inputs 1 = some t))

/-- The layout of the tensor `d` at position `t`, by its uses. -/
def layoutFor (s : Scope) (layouts : SortedMap ExplicitLayout) (t : Nat)
    (d : Source.TensorDecl) : Option Layout :=
  match layouts.find? d.name with
  | some e => (e.toLayout d.name).toOption
  | none =>
      if s.IsActivation t then some .activation
      else if s.IsWeights t then some .weights
      else none

/-! ## Requests that name a layout -/

/-- The position found for a name holds a tensor of that name. -/
theorem tensorIndex?_name {key : String} {i : Nat} (h : s.subgraph.tensorIndex? key = some i) :
    s.nameOf? i = some key := by
  obtain ⟨hlt, hname, -⟩ := List.findIdx?_eq_some_iff_getElem.mp h
  rw [nameOf?, List.getElem?_eq_getElem hlt, Option.map_some]
  exact congrArg some (by simpa using hname)

theorem nameAt?_ofNat (hs : s.subgraph.Storable) (hp : s.nameOf? p = some name) :
    s.nameAt? (.ofNat p) = some name := by
  have hlt : p < 2 ^ 63 := by
    obtain ⟨d, hd, -⟩ := Option.map_eq_some_iff.mp hp
    exact Nat.lt_trans (List.getElem?_eq_some_iff.mp hd).1 hs.tensors
  rw [nameAt?_eq, Int64.toInt_ofNat_of_lt hlt, if_pos (by omega), Int.toNat_natCast, hp]

/-- An explicit layout is a request for the tensor that it names. -/
theorem explicitRequest?_eq (hs : s.subgraph.Storable) {entry : String × ExplicitLayout}
    {request : Request} (h : s.explicitRequest? entry = some request) :
    ∃ l, request = (entry.1, some l) ∧ entry.2.toLayout entry.1 = .ok l := by
  simp only [explicitRequest?, Option.bind_eq_bind, Option.bind_eq_some_iff] at h
  obtain ⟨i, hi, name, hname, h⟩ := h
  rw [nameAt?_ofNat hs (tensorIndex?_name hi)] at hname
  cases hname
  split at h
  · rename_i l hl
    cases h
    exact ⟨l, rfl, hl⟩
  · cases h

/-- What a convolution asks for, by position. -/
theorem mem_requests_conv {decl : Source.OperatorDecl} {c : Call}
    (hcall : s.call? decl = some c) (hopcode : s.model.opcode decl = .conv2d)
    (hp : s.nameOf? p = some name) :
    (Source.operandAt? decl.inputs 0 = some p ∨ decl.Writes p →
      (name, some .activation) ∈ c.requests) ∧
    (Source.operandAt? decl.inputs 1 = some p → (name, some .weights) ∈ c.requests) := by
  cases c with
  | reshape x shape y =>
      rw [(call?_eq_reshape.mp hcall).1] at hopcode
      cases hopcode
  | conv x w b y =>
      obtain ⟨-, hx, hw, -, -⟩ := call?_eq_conv.mp hcall
      rw [nameIn?_eq] at hx hw
      constructor
      · rintro (hin | ⟨index, hindex, h0, rfl⟩)
        · rw [hin, Option.bind_some, hp] at hx
          cases hx
          simp [Call.requests]
        · obtain ⟨slot, hslot⟩ := List.getElem?_of_mem hindex
          obtain ⟨p', hp', hiff⟩ := operandAt?_output hcall
          have hat : Source.operandAt? decl.outputs slot = some index.toInt.toNat := by
            rw [Source.operandAt?, hslot, Option.bind_some, if_pos h0]
          obtain ⟨-, rfl⟩ := (hiff slot _).mp hat
          rw [hp] at hp'
          cases hp'
          simp [Call.requests, Call.output]
      · intro hin
        rw [hin, Option.bind_some, hp] at hw
        cases hw
        simp [Call.requests]

/-- Only a convolution asks for a layout. -/
theorem isActivation_or_isWeights {c : Call} (hs : s.Distinct) {decl : Source.OperatorDecl}
    (hdecl : decl ∈ s.subgraph.operators) (hcall : s.call? decl = some c)
    (hp : s.nameOf? p = some name) (h : (name, some l) ∈ c.requests) :
    s.IsActivation p ∨ s.IsWeights p := by
  have hin : ∀ slot, s.nameIn? decl.inputs slot = some name →
      Source.operandAt? decl.inputs slot = some p := by
    intro slot hslot
    rw [nameIn?_eq, Option.bind_eq_some_iff] at hslot
    obtain ⟨p', hp', hname⟩ := hslot
    exact hs.position_eq hname hp ▸ hp'
  cases c with
  | reshape x shape y => simp [Call.requests] at h
  | conv x w b y =>
      obtain ⟨hopcode, hx, hw, -, -⟩ := call?_eq_conv.mp hcall
      have hcases : name = x ∨ name = w ∨ name = y := by
        simp only [Call.requests, List.mem_append, List.mem_cons, Prod.mk.injEq, List.mem_map,
          List.not_mem_nil, or_false] at h
        rcases h with ((h | h) | ⟨_, _, _, h⟩) | h
        · exact Or.inl h.1
        · exact Or.inr (Or.inl h.1)
        · cases h
        · exact Or.inr (Or.inr h.1)
      rcases hcases with rfl | rfl | rfl
      · exact Or.inl ⟨decl, hdecl, hopcode, Or.inl (hin 0 hx)⟩
      · exact Or.inr ⟨decl, hdecl, hopcode, hin 1 hw⟩
      · obtain ⟨p', hp', hiff⟩ := operandAt?_output hcall
        obtain rfl := hs.position_eq hp' hp
        have hat := (hiff 0 p').mpr ⟨rfl, rfl⟩
        simp only [Source.operandAt?, Option.bind_eq_some_iff] at hat
        obtain ⟨index, hindex, hat⟩ := hat
        split at hat
        · exact Or.inl ⟨decl, hdecl, hopcode, Or.inr ⟨index, List.mem_of_getElem? hindex, ‹_›,
            Option.some.inj hat⟩⟩
        · cases hat

end Scope

namespace Graph

variable {s : Scope} {layouts : SortedMap ExplicitLayout} {g : Graph} {t : Tensor} {p : Nat}
  {d : Source.TensorDecl}

/-- A strict scope grants every request. -/
theorem Intake.granted (h : Intake s layouts g) (hstrict : s.strict = true) (ht : t ∈ g.tensors)
    {l : Layout} (hr : (t.name, some l) ∈ s.requests layouts) : t.layout = some l := by
  obtain ⟨u, hu, hname, hgranted⟩ := h.taken.registry.known _ hr
  obtain ⟨u', hu', rfl⟩ := List.mem_map.mp hu
  obtain rfl := h.named.eq_of_mem hu' ht hname
  exact hgranted hstrict l rfl

theorem mem_of_lookup {α β : Type} [BEq α] [LawfulBEq α] {xs : List (α × β)} {a : α} {b : β}
    (h : xs.lookup a = some b) : (a, b) ∈ xs := by
  induction xs with
  | nil => cases h
  | cons x xs ih =>
      rw [List.lookup_cons] at h
      split at h
      · rename_i heq
        cases h
        rw [eq_of_beq heq]
        exact List.mem_cons_self
      · exact List.mem_cons_of_mem _ (ih h)

/-- A strict scope grants what is asked for explicitly. -/
theorem Intake.explicit_layout (h : Intake s layouts g) (hstrict : s.strict = true)
    (hstorable : s.subgraph.Storable) (ht : t ∈ g.tensors) {e : ExplicitLayout}
    (hfind : layouts.find? t.name = some e) :
    ∃ l, e.toLayout t.name = .ok l ∧ t.layout = some l := by
  have hentry := mem_of_lookup hfind
  obtain ⟨request, hr⟩ := Option.isSome_iff_exists.mp (h.explicit _ hentry)
  obtain ⟨l, rfl, hl⟩ := Scope.explicitRequest?_eq hstorable hr
  have hmem : (t.name, some l) ∈ s.requests layouts := by
    refine List.mem_append_left _ (List.mem_append_left _ (List.mem_append_left _ ?_))
    exact List.mem_filterMap.mpr ⟨_, hentry, hr⟩
  exact ⟨l, hl, h.granted hstrict ht hmem⟩

/-- A strict scope grants what a call asks for. -/
theorem Intake.requested_layout (h : Intake s layouts g) (hstrict : s.strict = true)
    (ht : t ∈ g.tensors) {decl : Source.OperatorDecl} (hdecl : decl ∈ s.subgraph.operators)
    {c : Call} (hcall : s.call? decl = some c) {l : Layout} (hr : (t.name, some l) ∈ c.requests) :
    t.layout = some l := by
  refine h.granted hstrict ht (List.mem_append_left _ (List.mem_append_left _
    (List.mem_append_right _ (List.mem_flatMap.mpr ⟨_, ?_, hr⟩))))
  exact List.mem_filterMap.mpr ⟨_, hdecl, hcall⟩

/-- The layout of a tensor was asked for by a call, unless it is explicit. -/
theorem Intake.exists_request (h : Intake s layouts g) (hstorable : s.subgraph.Storable)
    (ht : t ∈ g.tensors) (hfind : layouts.find? t.name = none) {l : Layout}
    (hl : t.layout = some l) :
    ∃ decl ∈ s.subgraph.operators, ∃ c, s.call? decl = some c ∧
      (t.name, some l) ∈ c.requests := by
  have hfirst := h.taken.registry.first t.bare (List.mem_map_of_mem ht)
  rw [Tensor.bare_name, Tensor.bare_layout, hl] at hfirst
  have hmem := mem_of_lookup hfirst
  simp only [Scope.requests, List.mem_append, Scope.boundaryRequests, List.mem_map, Prod.mk.injEq,
    reduceCtorEq, and_false, exists_false, or_false, List.mem_flatMap] at hmem
  rcases hmem with hmem | ⟨c, hc, hr⟩
  · obtain ⟨entry, hentry, hr⟩ := List.mem_filterMap.mp hmem
    obtain ⟨l', heq, -⟩ := Scope.explicitRequest?_eq hstorable hr
    have hkey : entry.1 = t.name := (congrArg Prod.fst heq).symm
    have := List.lookup_eq_none_iff.mp hfind entry hentry
    simp [hkey] at this
  · obtain ⟨decl, hdecl, hcall⟩ := List.mem_filterMap.mp hc
    exact ⟨decl, hdecl, c, hcall, hr⟩

/-- In a strict scope the layout of a tensor depends on its uses only. -/
theorem Intake.layout_eq (h : Intake s layouts g) (hstrict : s.strict = true) (hs : s.Distinct)
    (hstorable : s.subgraph.Storable) (ht : t ∈ g.tensors)
    (hd : s.subgraph.tensors[p]? = some d) (hname : d.name = t.name) :
    t.layout = s.layoutFor layouts p d := by
  have hp : s.nameOf? p = some t.name := by rw [Scope.nameOf?, hd, ← hname]; rfl
  unfold Scope.layoutFor
  rw [hname]
  cases hfind : layouts.find? t.name with
  | some e =>
      obtain ⟨l, hl, hlayout⟩ := h.explicit_layout hstrict hstorable ht hfind
      dsimp only
      rw [hlayout, hl]
      rfl
  | none =>
      dsimp only
      split
      · rename_i huse
        obtain ⟨decl, hdecl, hopcode, huse⟩ := huse
        obtain ⟨c, hcall⟩ := Option.isSome_iff_exists.mp (h.call?_isSome decl hdecl)
        exact h.requested_layout hstrict ht hdecl hcall
          ((Scope.mem_requests_conv hcall hopcode hp).1 huse)
      · rename_i hactivation
        split
        · rename_i huse
          obtain ⟨decl, hdecl, hopcode, huse⟩ := huse
          obtain ⟨c, hcall⟩ := Option.isSome_iff_exists.mp (h.call?_isSome decl hdecl)
          exact h.requested_layout hstrict ht hdecl hcall
            ((Scope.mem_requests_conv hcall hopcode hp).2 huse)
        · rename_i hweights
          -- nothing asks for a layout
          refine Option.eq_none_iff_forall_ne_some.mpr fun l hl => ?_
          obtain ⟨decl, hdecl, c, hcall, hr⟩ := h.exists_request hstorable ht hfind hl
          exact (Scope.isActivation_or_isWeights hs hdecl hcall hp hr).elim hactivation hweights

end Graph

end Relayout
