/-
# Tensors that the conversion makes up

Some tensors of a converted graph are of no declaration: the shape of a reshape
that has no shape operand, and what a reshape reads or writes instead of an
operand with a layout.  The registry knows them by name, and the names are read
off the source (`Scope.madeUp`).  So a tensor that is made up is one of the source
just where the source asks for a tensor of its name.
-/
import Relayout.Proofs.Graph.Layouts
import Relayout.Proofs.Graph.Mentions
import Relayout.Proofs.Graph.Substitutes

namespace Relayout

namespace Call

variable {tag : String → Option Layout} {c : Call} {name : String}

/-- The names that a call makes up. -/
def madeUp (tag : String → Option Layout) : Call → List String
  | .conv .. => []
  | .reshape x shape y =>
      (if shape.isNone then [synthesizedName "Vector" y] else []) ++
        (if (tag x).isSome then [synthesizedName "Transposed" x] else []) ++
        if (tag y).isSome then [synthesizedName "ToTranspose" y] else []

theorem mem_madeUp : name ∈ c.madeUp tag ↔ ∃ x shape y, c = .reshape x shape y ∧
    (shape = none ∧ name = synthesizedName "Vector" y ∨
      (tag x).isSome = true ∧ name = synthesizedName "Transposed" x ∨
      (tag y).isSome = true ∧ name = synthesizedName "ToTranspose" y) := by
  cases c with
  | conv x w b y => simp [madeUp]
  | reshape x shape y =>
      have hif : ∀ {b : Bool} {made : String},
          name ∈ (if b then [made] else []) ↔ b = true ∧ name = made := by
        intro b made
        cases b <;> simp
      simp [madeUp, hif]

/-- A call asks for what it reads and for what it writes. -/
theorem map_fst_requests (c : Call) : c.requests.map Prod.fst = c.inputs ++ [c.output] := by
  cases c with
  | conv x w b y => cases b <;> rfl
  | reshape x shape y => rfl

end Call

namespace Scope

variable {s : Scope} {layouts : SortedMap ExplicitLayout} {name : String}

/-- The names that a conversion makes up. -/
def madeUp (s : Scope) (layouts : SortedMap ExplicitLayout) : List String :=
  s.calls.flatMap (Call.madeUp (s.tag layouts))

/-- The source asks for a tensor of this name: something refers to one that has
it, or a layout is known for it. -/
def AsksFor (s : Scope) (layouts : SortedMap ExplicitLayout) (name : String) : Prop :=
  (∃ p, s.Refers p ∧ s.nameOf? p = some name) ∨
    ∃ entry ∈ layouts.entries, ∃ l, s.explicitRequest? entry = some (name, l)

/-- Names tell apart what the source refers to, and nothing that it asks for has a
name that is made up. -/
structure Apart (s : Scope) (layouts : SortedMap ExplicitLayout) : Prop where
  sources : ∀ p q, s.Refers p → s.Refers q → s.nameOf? p = s.nameOf? q → p = q
  invented : ∀ name, s.AsksFor layouts name → name ∉ s.madeUp layouts

theorem mem_madeUp : name ∈ s.madeUp layouts ↔
    ∃ (i : Nat) (x : String) (shape : Option String) (y : String),
      s.calls[i]? = some (.reshape x shape y) ∧
        (shape = none ∧ name = synthesizedName "Vector" y ∨
          (s.tag layouts x).isSome = true ∧ name = synthesizedName "Transposed" x ∨
          (s.tag layouts y).isSome = true ∧ name = synthesizedName "ToTranspose" y) := by
  constructor
  · intro hname
    obtain ⟨c, hc, hmade⟩ := List.mem_flatMap.mp hname
    obtain ⟨x, shape, y, rfl, hcases⟩ := Call.mem_madeUp.mp hmade
    obtain ⟨i, hi⟩ := List.getElem?_of_mem hc
    exact ⟨i, x, shape, y, hi, hcases⟩
  · rintro ⟨i, x, shape, y, hi, hname⟩
    exact List.mem_flatMap.mpr
      ⟨_, List.mem_of_getElem? hi, Call.mem_madeUp.mpr ⟨x, shape, y, rfl, hname⟩⟩

/-- The first input of a call is the first one that was declared. -/
theorem nameIn?_head {decl : Source.OperatorDecl} {c : Call} (h : s.call? decl = some c) :
    s.nameIn? decl.inputs 0 = c.inputs[0]? := by
  cases c with
  | conv x w b y => exact (call?_eq_conv.mp h).2.1
  | reshape x shape y => exact (call?_eq_reshape.mp h).2.1

/-- A request is for a name that the source asks for, or for the vector of a
shape. -/
theorem asksFor_of_mem_requests {r : Request} (hr : r ∈ s.requests layouts) :
    s.AsksFor layouts r.1 ∨ ∃ owner, r.1 = synthesizedName "Vector" owner := by
  have hboundary : ∀ {indices : List UInt64}, indices ⊆ s.subgraph.inputs ++ s.subgraph.outputs →
      r ∈ s.boundaryRequests indices → s.AsksFor layouts r.1 := by
    intro indices hsub hmem
    obtain ⟨name, hnamed, rfl⟩ := List.mem_map.mp hmem
    obtain ⟨index, hindex, hname⟩ := mem_boundary hnamed
    exact Or.inl ⟨_, Or.inr ⟨index, hsub hindex, rfl⟩, hname⟩
  rcases List.mem_append.mp hr with hr | hout
  · rcases List.mem_append.mp hr with hr | hin
    · rcases List.mem_append.mp hr with hexplicit | hcall
      · obtain ⟨entry, hentry, hrequest⟩ := List.mem_filterMap.mp hexplicit
        exact Or.inl (Or.inr ⟨entry, hentry, r.2, hrequest⟩)
      · obtain ⟨c, hc, hr⟩ := List.mem_flatMap.mp hcall
        obtain ⟨decl, hdecl, hcall⟩ := List.mem_filterMap.mp hc
        have hname : r.1 ∈ c.inputs ++ [c.output] :=
          c.map_fst_requests ▸ List.mem_map_of_mem hr
        rcases List.mem_append.mp hname with hin | hout
        · rcases operandAt?_input hcall hin with ⟨slot, p, hslot, hname⟩ | hvector
          · exact Or.inl (Or.inl ⟨p, Or.inl ⟨decl, hdecl, slot, Or.inl hslot⟩, hname⟩)
          · exact Or.inr ⟨_, hvector⟩
        · obtain ⟨p, hname, hiff⟩ := operandAt?_output hcall
          have hslot := (hiff 0 p).mpr ⟨rfl, rfl⟩
          rw [← List.mem_singleton.mp hout] at hname
          exact Or.inl (Or.inl ⟨p, Or.inl ⟨decl, hdecl, 0, Or.inr hslot⟩, hname⟩)
    · exact Or.inl (hboundary (List.subset_append_left _ _) hin)
  · exact Or.inl (hboundary (List.subset_append_right _ _) hout)

/-- Whatever a source asks for has the name of a declaration. -/
theorem exists_decl_of_asksFor (h : s.AsksFor layouts name) :
    ∃ d ∈ s.subgraph.tensors, d.name = name := by
  have hdecl : ∀ p, s.nameOf? p = some name → ∃ d ∈ s.subgraph.tensors, d.name = name := by
    intro p hp
    obtain ⟨d, hd, hname⟩ := Option.map_eq_some_iff.mp hp
    exact ⟨d, List.mem_of_getElem? hd, hname⟩
  rcases h with ⟨p, -, hp⟩ | ⟨entry, -, l, hrequest⟩
  · exact hdecl p hp
  · unfold explicitRequest? at hrequest
    obtain ⟨index, -, hrequest⟩ := Option.bind_eq_some_iff.mp hrequest
    obtain ⟨name', hname, hrequest⟩ := Option.bind_eq_some_iff.mp hrequest
    obtain rfl : name' = name := by
      split at hrequest
      · exact congrArg Prod.fst (Option.some.inj hrequest)
      · cases hrequest
    rw [nameAt?_eq] at hname
    split at hname
    · exact hdecl _ hname
    · cases hname

end Scope

namespace Graph

variable {s : Scope} {layouts : SortedMap ExplicitLayout} {g k : Graph} {t x y : Tensor}
  {i : Nat} {id : TensorId} {name : String}

/-- A tensor that was read has a name that the source asks for, or is the vector of
a shape. -/
theorem Intake.asksFor (h : Intake s layouts g) (ht : t ∈ g.tensors) :
    s.AsksFor layouts t.name ∨ ∃ owner, t.name = synthesizedName "Vector" owner :=
  Scope.asksFor_of_mem_requests
    (mem_of_lookup (h.taken.registry.first t.bare (List.mem_map_of_mem ht)))

/-- The other form of what a reshape reads has a name that is made up. -/
theorem Intake.madeUp_left (h : Intake s layouts g) (hr : g.Reshapes i x y)
    (hl : x.layout.isSome = true) : synthesizedName "Transposed" x.name ∈ s.madeUp layouts := by
  obtain ⟨shape, hc⟩ := h.readable.call_of_reshapes hr
  exact Scope.mem_madeUp.mpr
    ⟨i, _, shape, _, hc, Or.inr (Or.inl ⟨by rw [h.tag_eq hr.mem_left, hl], rfl⟩)⟩

/-- The other form of what a reshape writes has a name that is made up. -/
theorem Intake.madeUp_right (h : Intake s layouts g) (hr : g.Reshapes i x y)
    (hl : y.layout.isSome = true) : synthesizedName "ToTranspose" y.name ∈ s.madeUp layouts := by
  obtain ⟨shape, hc⟩ := h.readable.call_of_reshapes hr
  exact Scope.mem_madeUp.mpr
    ⟨i, _, shape, _, hc, Or.inr (Or.inr ⟨by rw [h.tag_eq hr.mem_right, hl], rfl⟩)⟩

/-- Splices find their names vacant if nothing that the source asks for has one that
is made up. -/
theorem Intake.vacant_of_asksFor (h : Intake s layouts g)
    (hfree : ∀ name, s.AsksFor layouts name → name ∉ s.madeUp layouts) : g.Vacant := by
  intro i x y hr t ht
  refine ⟨fun hl hname => ?_, fun hl hname => ?_⟩
  · rcases h.asksFor ht with hasked | ⟨owner, hvector⟩
    · exact hfree _ hasked (hname ▸ h.madeUp_left hr hl)
    · exact synthesizedName_vector_ne_transposed _ _ (hvector.symm.trans hname)
  · rcases h.asksFor ht with hasked | ⟨owner, hvector⟩
    · exact hfree _ hasked (hname ▸ h.madeUp_right hr hl)
    · exact synthesizedName_vector_ne_toTranspose _ _ (hvector.symm.trans hname)

/-- Distinct names of which none is made up keep everything apart. -/
theorem IsIntake.apart (h : IsIntake s layouts g) (hs : s.Distinct)
    (hfree : ∀ d ∈ s.subgraph.tensors, d.name ∉ s.madeUp layouts) : s.Apart layouts where
  sources := fun p q hp _ heq => by
    obtain ⟨name, hname, -⟩ := h.named_of_refers hp
    exact hs.position_eq hname (heq ▸ hname)
  invented := fun name hname => by
    obtain ⟨d, hd, rfl⟩ := Scope.exists_decl_of_asksFor hname
    exact hfree d hd

/-- The tensor is made up: it is the shape of a reshape that has no shape operand,
or an operator reads or writes it in the place of a declared operand that has
another name. -/
inductive Invented (s : Scope) (k : Graph) (id : TensorId) : Prop where
  | vector {i : Nat} {decl : Source.OperatorDecl} {o : Operator}
      (hdecl : s.subgraph.operators[i]? = some decl) (hopcode : s.model.opcode decl = .reshape)
      (hshape : Source.operandAt? decl.inputs 1 = none) (ho : k.ops[i]? = some o)
      (hid : o.inputs[1]? = some id)
  | read {i p : Nat} {decl : Source.OperatorDecl} {o : Operator}
      (hdecl : s.subgraph.operators[i]? = some decl)
      (hp : Source.operandAt? decl.inputs 0 = some p) (ho : k.ops[i]? = some o)
      (hid : o.inputs[0]? = some id) (hother : k.nameOf? id ≠ s.nameOf? p)
  | written {i p : Nat} {decl : Source.OperatorDecl} {o : Operator}
      (hdecl : s.subgraph.operators[i]? = some decl)
      (hp : Source.operandAt? decl.outputs 0 = some p) (ho : k.ops[i]? = some o)
      (hid : o.outputs[0]? = some id) (hother : k.nameOf? id ≠ s.nameOf? p)

/-- Every name that is made up is that of a tensor that is made up, whatever the
names of the source are. -/
theorem Intake.exists_invented (h : Intake s layouts g) (hclash : ¬g.Clash)
    (hname : name ∈ s.madeUp layouts) :
    ∃ id, Invented s g.adapted id ∧ g.adapted.nameOf? id = some name := by
  obtain ⟨i, x, shape, y, hc, hmade⟩ := Scope.mem_madeUp.mp hname
  obtain ⟨decl, hdecl, hcall⟩ := h.decl_at hc
  obtain ⟨hopcode, hx, hshape, -⟩ := Scope.call?_eq_reshape.mp hcall
  obtain ⟨o, input, output, t, u, ho, hstands, hin, ht, rfl, hout, hu, rfl, -⟩ :=
    h.readable.reshapes_of_call hc
  have hat : g.ReshapeAt i o input output t u := ⟨ho, hstands.kind, hin, ht, hout, hu⟩
  have hi := (List.getElem?_eq_some_iff.mp ho).1
  obtain ⟨o', ho', hs⟩ := h.substituted hclash ho
  rcases hmade with ⟨rfl, rfl⟩ | ⟨hl, rfl⟩ | ⟨hl, rfl⟩
  · -- the vector is in the slot of the shape
    have hslot : o.inputs[1]?.map g.nameOf? = some (some (synthesizedName "Vector" u.name)) := by
      rw [← List.getElem?_map, hstands.inputs]
      rfl
    obtain ⟨id, hid, hname⟩ := Option.map_eq_some_iff.mp hslot
    exact ⟨id, .vector hdecl hopcode (Scope.optionalIn?_eq_none hshape) ho'
      ((hs.others 1 (by decide)).trans hid), h.framed.keeps _ _ hname⟩
  · rw [h.tag_eq (List.mem_of_getElem? ht)] at hl
    obtain ⟨l, hl⟩ := Option.isSome_iff_exists.mp hl
    obtain ⟨id, hid, hname⟩ := Option.bind_eq_some_iff.mp (hs.read hi ⟨o, output, u, hat, hl⟩)
    rw [Scope.nameIn?_eq] at hx
    obtain ⟨p, hp, hpname⟩ := Option.bind_eq_some_iff.mp hx
    refine ⟨id, .read hdecl hp ho' hid fun heq => ?_, hname⟩
    rw [hname, hpname] at heq
    exact synthesizedName_ne_self _ _ (Option.some.inj heq)
  · rw [h.tag_eq (List.mem_of_getElem? hu)] at hl
    obtain ⟨l, hl⟩ := Option.isSome_iff_exists.mp hl
    obtain ⟨id, hid, hname⟩ := Option.bind_eq_some_iff.mp (hs.written hi ⟨o, input, t, hat, hl⟩)
    obtain ⟨p, hpname, hiff⟩ := Scope.operandAt?_output hcall
    refine ⟨id, .written hdecl ((hiff 0 p).mpr ⟨rfl, rfl⟩) ho' hid fun heq => ?_, hname⟩
    rw [hname, hpname] at heq
    exact synthesizedName_ne_self _ _ (Option.some.inj heq)

/-- What a slot of the inputs holds after its operand was turned, or was not. -/
theorem InputSide.inputs_cases {o o' : Operator} (h : InputSide g k i o o') :
    o'.inputs = o.inputs ∨ ∃ input moved x l, g.ReadsTagged i input x l ∧
      k.nameOf? moved = some (synthesizedName "Transposed" x.name) ∧
      o'.inputs = o.inputs.set 0 moved := by
  cases h with
  | kept _ hins => exact Or.inl hins
  | shared h _ hmoved hins => exact Or.inr ⟨_, _, _, _, h, hmoved, hins⟩
  | turned h _ hmoved hins => exact Or.inr ⟨_, _, _, _, h, hmoved, hins⟩

section Vacant

variable (h : Intake s layouts g) (hvacant : g.Vacant) (hclash : ¬g.Clash) {p : Nat}
  {decl : Source.OperatorDecl} {o' : Operator} (hdecl : s.subgraph.operators[i]? = some decl)
  (ho' : g.adapted.ops[i]? = some o')

include h hclash hdecl ho'

/-- The shape of a reshape that has no shape operand is the vector of this reshape. -/
theorem Intake.madeUp_of_vector (hopcode : s.model.opcode decl = .reshape)
    (hshape : Source.operandAt? decl.inputs 1 = none) (hid : o'.inputs[1]? = some id) :
    ∃ name ∈ s.madeUp layouts, g.adapted.nameOf? id = some name := by
  obtain ⟨c, o, hcall, hc, ho, hstands⟩ := h.call_at hdecl
  obtain ⟨q, hq, hs⟩ := h.substituted hclash ho
  obtain rfl := Option.some.inj (ho'.symm.trans hq)
  rw [hs.others 1 (by decide)] at hid
  cases c with
  | conv x w b y =>
      rw [(Scope.call?_eq_conv.mp hcall).1] at hopcode
      cases hopcode
  | reshape x shape y =>
      obtain ⟨-, -, hoptional, -⟩ := Scope.call?_eq_reshape.mp hcall
      cases shape with
      | some v =>
          have hin := Scope.optionalIn?_eq_some hoptional
          rw [Scope.nameIn?_eq, hshape] at hin
          cases hin
      | none =>
          have hname : g.nameOf? id = some (synthesizedName "Vector" y) := by
            have hslots := congrArg (·[1]?) hstands.inputs
            simpa [hid, Call.inputs] using hslots
          exact ⟨_, Scope.mem_madeUp.mpr ⟨i, x, none, y, hc, Or.inl ⟨rfl, rfl⟩⟩,
            h.framed.keeps _ _ hname⟩

include hvacant

/-- What an operator reads instead of its first operand is the other form of it. -/
theorem Intake.madeUp_of_read (hp : Source.operandAt? decl.inputs 0 = some p)
    (hid : o'.inputs[0]? = some id) (hother : g.adapted.nameOf? id ≠ s.nameOf? p) :
    ∃ name ∈ s.madeUp layouts, g.adapted.nameOf? id = some name := by
  obtain ⟨c, o, hcall, -, ho, hstands⟩ := h.call_at hdecl
  have hi := (List.getElem?_eq_some_iff.mp ho).1
  obtain ⟨q, hq, hr⟩ := (h.inserting_adapted hvacant hclash).ops ho
  obtain rfl := Option.some.inj (ho'.symm.trans hq)
  rcases (hr.read hi).inputs_cases with hins | ⟨input, moved, x, l, hreads, hmoved, hins⟩
  · -- the operand is still there
    have hdeclared := Scope.nameIn?_head hcall
    rw [Scope.nameIn?_eq, hp, Option.bind_some] at hdeclared
    have hslots := congrArg (·[0]?) hstands.inputs
    rw [hins] at hid
    simp only [List.getElem?_map, hid, ← hdeclared, Option.map_some] at hslots
    obtain ⟨n, hn, hname⟩ := Option.map_eq_some_iff.mp hslots.symm
    exact absurd ((h.framed.keeps _ _ hname.symm).trans hn.symm) hother
  · obtain ⟨o₁, output, y, hat, hl⟩ := hreads
    obtain rfl := Option.some.inj (ho.symm.trans hat.op)
    rw [hins, List.getElem?_set_self (List.getElem?_eq_some_iff.mp hat.reads).1] at hid
    cases hid
    exact ⟨_, h.madeUp_left hat.reshapes (by rw [hl]; rfl), hmoved⟩

/-- What an operator writes instead of its output is the other form of it. -/
theorem Intake.madeUp_of_written (hp : Source.operandAt? decl.outputs 0 = some p)
    (hid : o'.outputs[0]? = some id) (hother : g.adapted.nameOf? id ≠ s.nameOf? p) :
    ∃ name ∈ s.madeUp layouts, g.adapted.nameOf? id = some name := by
  obtain ⟨c, o, hcall, -, ho, hstands⟩ := h.call_at hdecl
  have hi := (List.getElem?_eq_some_iff.mp ho).1
  obtain ⟨q, hq, hr⟩ := (h.inserting_adapted hvacant hclash).ops ho
  obtain rfl := Option.some.inj (ho'.symm.trans hq)
  cases hr.written hi with
  | kept _ houts =>
      obtain ⟨p', hname, hiff⟩ := Scope.operandAt?_output hcall
      obtain rfl := ((hiff 0 p).mp hp).2
      have hslots := congrArg (·[0]?) hstands.outputs
      rw [houts] at hid
      simp only [List.getElem?_map, hid, Option.map_some, List.getElem?_cons_zero,
        Option.some.injEq] at hslots
      exact absurd ((h.framed.keeps _ _ hslots).trans hname.symm) hother
  | turned hwrites hmoved houts =>
      obtain ⟨o₁, input, x, hat, hl⟩ := hwrites
      obtain rfl := Option.some.inj (ho.symm.trans hat.op)
      rw [houts, List.getElem?_set_self (List.getElem?_eq_some_iff.mp hat.writes).1] at hid
      cases hid
      exact ⟨_, h.madeUp_right hat.reshapes (by rw [hl]; rfl), hmoved⟩

end Vacant

/-- Where splices find their names vacant, a tensor that is made up has a name that
is made up. -/
theorem Intake.madeUp_of_invented (h : Intake s layouts g) (hvacant : g.Vacant)
    (hclash : ¬g.Clash) (hid : Invented s g.adapted id) :
    ∃ name ∈ s.madeUp layouts, g.adapted.nameOf? id = some name := by
  cases hid with
  | vector hdecl hopcode hshape ho' hid =>
      exact h.madeUp_of_vector hclash hdecl ho' hopcode hshape hid
  | read hdecl hp ho' hid hother =>
      exact h.madeUp_of_read hvacant hclash hdecl ho' hp hid hother
  | written hdecl hp ho' hid hother =>
      exact h.madeUp_of_written hvacant hclash hdecl ho' hp hid hother

end Graph

end Relayout
