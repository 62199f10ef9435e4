/-
# The tensors of an adapted graph

Where the names that splices make up are vacant, adapting leaves every tensor as
it was moved and adds one tensor for each operand that is turned: the operand's
other form, without data.  `Populated` says so of the graph after each operator.
-/
import Relayout.Proofs.Graph.Pass
import Relayout.Proofs.Names

namespace Relayout

/-- The other form of a tensor with layout `l`: in source order again. -/
def Tensor.spliced (role : String) (t : Tensor) (l : Layout) (id : TensorId) : Tensor :=
  (t.moved.derived (synthesizedName role t.name) id).completed
    (permutedDims l.inverse.perm t.moved.shape) l.inverse

theorem Tensor.spliced_name (role : String) (t : Tensor) (l : Layout) (id : TensorId) :
    (t.spliced role l id).name = synthesizedName role t.name := rfl

namespace Graph

variable {g k k' : Graph} {reads writes reads' writes' n : Nat} {side : Side} {op : OpId}
  {name : String} {shape : List Nat} {l : Layout} {t u b x y : Tensor}

/-- No tensor has a name that a splice could make up. -/
def Clear (g : Graph) : Prop :=
  ∀ t ∈ g.tensors, ∀ subject, t.name ≠ synthesizedName "Transposed" subject ∧
    t.name ≠ synthesizedName "ToTranspose" subject

/-- No tensor has a name that a splice of this graph makes up: that of the other
form of an operand with a layout. -/
def Vacant (g : Graph) : Prop :=
  ∀ ⦃i : Nat⦄ ⦃x y : Tensor⦄, g.Reshapes i x y → ∀ t ∈ g.tensors,
    (x.layout.isSome = true → t.name ≠ synthesizedName "Transposed" x.name) ∧
      (y.layout.isSome = true → t.name ≠ synthesizedName "ToTranspose" y.name)

theorem Clear.vacant (h : g.Clear) : g.Vacant := fun _ _ _ _ t ht =>
  ⟨fun _ => (h t ht _).1, fun _ => (h t ht _).2⟩

/-- A tensor that a reshape made necessary: the input of one before `reads`, or
the output of one before `writes`, turned. -/
def Synthesized (g : Graph) (reads writes : Nat) (b : Tensor) : Prop :=
  (∃ i x y l id, i < reads ∧ g.Reshapes i x y ∧ x.layout = some l ∧
      b = x.spliced "Transposed" l id) ∨
    ∃ i x y l id, i < writes ∧ g.Reshapes i x y ∧ y.layout = some l ∧
      b = y.spliced "ToTranspose" l id

theorem Synthesized.mono (h : g.Synthesized reads writes b) (hreads : reads ≤ reads')
    (hwrites : writes ≤ writes') : g.Synthesized reads' writes' b := by
  rcases h with ⟨i, x, y, l, id, hi, h⟩ | ⟨i, x, y, l, id, hi, h⟩
  · exact Or.inl ⟨i, x, y, l, id, Nat.lt_of_lt_of_le hi hreads, h⟩
  · exact Or.inr ⟨i, x, y, l, id, Nat.lt_of_lt_of_le hi hwrites, h⟩

/-- The tensors of `g`, moved, and those that reshapes made necessary. -/
structure Populated (g : Graph) (reads writes : Nat) (k : Graph) : Prop where
  named : k.Named
  base : ∀ {i : Nat} {t : Tensor}, g.tensors[i]? = some t →
    ∃ u, k.tensors[i]? = some u ∧ u.bare = t.bare.moved
  new : ∀ {j : Nat} {u : Tensor}, g.tensors.length ≤ j → k.tensors[j]? = some u →
    u.producers ≠ [] ∧ g.Synthesized reads writes u.bare
  turned : ∀ {i : Nat} {x y : Tensor}, i < reads → g.Reshapes i x y → x.layout.isSome = true →
    ∃ u ∈ k.tensors, u.name = synthesizedName "Transposed" x.name

theorem populated_moved (hg : g.Named) : Populated g 0 0 g.moved where
  named := hg.moved
  base := fun ht => ⟨_, by rw [moved, List.getElem?_map, ht]; rfl, Tensor.bare_moved _⟩
  new := fun hj hu => by
    have := (List.getElem?_eq_some_iff.mp hu).1
    simp only [moved, List.length_map] at this
    omega
  turned := fun hi => absurd hi (Nat.not_lt_zero _)

theorem Reshapes.mem_left (h : g.Reshapes n x y) : x ∈ g.tensors := by
  obtain ⟨o, input, output, -, -, -, hx, -, -⟩ := h
  exact List.mem_of_getElem? hx

theorem Reshapes.mem_right (h : g.Reshapes n x y) : y ∈ g.tensors := by
  obtain ⟨o, input, output, -, -, -, -, -, hy⟩ := h
  exact List.mem_of_getElem? hy

theorem Named.eq_of_mem (h : g.Named) (ht : t ∈ g.tensors) (hu : u ∈ g.tensors)
    (hname : t.name = u.name) : t = u := by
  obtain ⟨i, hi⟩ := List.getElem?_of_mem ht
  obtain ⟨j, hj⟩ := List.getElem?_of_mem hu
  obtain rfl := h.eq_of_name hi hj hname
  rw [hi] at hj
  exact Option.some.inj hj

/-- A synthesized tensor is known by its name. -/
theorem Synthesized.eq_turned (h : g.Synthesized reads writes b) (hg : g.Named)
    (hx : x ∈ g.tensors) (hname : b.name = synthesizedName "Transposed" x.name) :
    (∃ i y, i < reads ∧ g.Reshapes i x y) ∧ ∃ l, x.layout = some l ∧
      b = x.spliced "Transposed" l b.id := by
  rcases h with ⟨i, x', y, l, id, hi, hr, hl, rfl⟩ | ⟨i, x', y, l, id, hi, hr, hl, rfl⟩
  · rw [Tensor.spliced_name] at hname
    obtain rfl := hg.eq_of_mem hr.mem_left hx (synthesizedName_injective hname)
    exact ⟨⟨i, y, hi, hr⟩, l, hl, rfl⟩
  · rw [Tensor.spliced_name] at hname
    exact absurd hname.symm (synthesizedName_transposed_ne_toTranspose _ _)

theorem Synthesized.eq_written (h : g.Synthesized reads writes b) (hg : g.Named)
    (hy : y ∈ g.tensors) (hname : b.name = synthesizedName "ToTranspose" y.name) :
    (∃ i x, i < writes ∧ g.Reshapes i x y) ∧ ∃ l, y.layout = some l ∧
      b = y.spliced "ToTranspose" l b.id := by
  rcases h with ⟨i, x, y', l, id, hi, hr, hl, rfl⟩ | ⟨i, x, y', l, id, hi, hr, hl, rfl⟩
  · rw [Tensor.spliced_name] at hname
    exact absurd hname (synthesizedName_transposed_ne_toTranspose _ _)
  · rw [Tensor.spliced_name] at hname
    obtain rfl := hg.eq_of_mem hr.mem_right hy (synthesizedName_injective hname)
    exact ⟨⟨i, x, hi, hr⟩, l, hl, rfl⟩

/-- What has a new name is synthesized. -/
theorem Populated.of_name (h : Populated g reads writes k) {j : Nat}
    (hu : k.tensors[j]? = some u) (hnew : ∀ t ∈ g.tensors, t.name ≠ u.name) :
    g.tensors.length ≤ j ∧ u.producers ≠ [] ∧ g.Synthesized reads writes u.bare := by
  by_cases hlt : j < g.tensors.length
  · obtain ⟨u', hu', hbare⟩ := h.base (List.getElem?_eq_getElem hlt)
    rw [hu] at hu'
    cases hu'
    have hn : u.name = g.tensors[j].name := by
      simpa using congrArg Tensor.name hbare
    exact absurd hn.symm (hnew _ (List.getElem_mem hlt))
  · exact ⟨Nat.not_lt.mp hlt, h.new (Nat.not_lt.mp hlt) hu⟩

/-! ## Splices -/

theorem nameOf?_withDerived (hg : g.Named) (t : Tensor) (name : String) :
    (g.withDerived t name).2.nameOf? (g.withDerived t name).1 = some name := by
  rw [← named_withDerived hg t name, lookup?_withDerived, if_pos rfl]

theorem keeps_withDerived (g : Graph) (t : Tensor) (name : String) :
    g.Keeps (g.withDerived t name).2 := by
  cases hlookup : g.lookup? name with
  | some e =>
      rw [withDerived, hlookup]
      exact .refl g
  | none =>
      rw [withDerived, hlookup]
      exact keeps_of_append rfl

theorem nameOf?_inputSpliced (hg : g.Named) (op : OpId) (operand : TensorId) (t : Tensor)
    (l : Layout) :
    (g.inputSpliced op operand t l).nameOf?
        (g.withDerived t (synthesizedName "Transposed" t.name)).1 =
      some (synthesizedName "Transposed" t.name) := by
  rw [nameOf?_eq, names_inputSpliced, ← nameOf?_eq, nameOf?_withDerived hg]

theorem nameOf?_outputPreserved (hg : g.Named) (op : OpId) (operand : TensorId) (t : Tensor)
    (l : Layout) :
    (g.outputPreserved op operand t l).nameOf?
        (g.withDerived t (synthesizedName "ToTranspose" t.name)).1 =
      some (synthesizedName "ToTranspose" t.name) := by
  rw [nameOf?_eq, names_outputPreserved, ← nameOf?_eq, nameOf?_withDerived hg]

/-- Names decide what is kept. -/
theorem Keeps.of_names {g' : Graph} (h : g.Keeps k)
    (hnames : g'.tensors.map Tensor.name = k.tensors.map Tensor.name) : g.Keeps g' :=
  h.trans (keeps_of_names hnames)

theorem Populated.readingInstead (h : Populated g reads writes k) {operand moved : TensorId}
    (hturned : ∀ {x y}, g.Reshapes reads x y → x.layout.isSome = true →
      ∃ u ∈ k.tensors, u.name = synthesizedName "Transposed" x.name) :
    Populated g (reads + 1) writes (k.readingInstead op operand moved) where
  named := h.named.readingInstead op operand moved
  base := fun ht => by
    obtain ⟨u, hu, hbare⟩ := h.base ht
    obtain ⟨u', hu', hr, -⟩ := getElem?_readingInstead op operand moved hu op
    exact ⟨u', hu', hr.bare.trans hbare⟩
  new := fun hj hu' => by
    obtain ⟨u, hu, hr, hproducers⟩ := before_readingInstead hu'
    rw [hr.bare, hproducers]
    exact ⟨(h.new hj hu).1, (h.new hj hu).2.mono (Nat.le_succ _) (Nat.le_refl _)⟩
  turned := fun {i x y} hi hr hl => by
    obtain ⟨u, hu, hname⟩ : ∃ u ∈ k.tensors, u.name = synthesizedName "Transposed" x.name := by
      rcases Nat.lt_succ_iff_lt_or_eq.mp hi with hi | rfl
      · exact h.turned hi hr hl
      · exact hturned hr hl
    obtain ⟨j, hj⟩ := List.getElem?_of_mem hu
    obtain ⟨u', hu', hr', -⟩ := getElem?_readingInstead op operand moved hj op
    exact ⟨u', List.mem_of_getElem? hu', hr'.name.trans hname⟩

/-- A splice adds one synthesized tensor, or completes it once more. -/
theorem Populated.splice (h : Populated g reads writes k)
    (hstep : k.SpliceStep side op u name shape l k')
    (hfree : ∀ t ∈ g.tensors, t.name ≠ name)
    (hsyn : ∀ v, (∃ id, v = u.derived name id) ∨ v ∈ k.tensors ∧ v.name = name →
      g.Synthesized reads' writes' (v.completed shape l).bare)
    (hreads : reads ≤ reads') (hwrites : writes ≤ writes')
    (hturned : ∀ {i x y}, i < reads' → g.Reshapes i x y → x.layout.isSome = true → i < reads ∨
      ∃ u ∈ k'.tensors, u.name = synthesizedName "Transposed" x.name) :
    Populated g reads' writes' k' where
  named := hstep.named h.named
  base := fun {i t} ht => by
    obtain ⟨v, hv, hbare⟩ := h.base ht
    have hname : v.name = t.name := by simpa using congrArg Tensor.name hbare
    have hlookup : k.lookup? name ≠ some ⟨i⟩ := fun hlookup =>
      hfree t (List.mem_of_getElem? ht) (hname.symm.trans ((lookup?_iff h.named hv).mp hlookup))
    obtain ⟨v', hv', hr, -⟩ := hstep.other hv hlookup
    exact ⟨v', hv', hr.bare.trans hbare⟩
  new := fun {j v'} hj hv' => by
    obtain ⟨v, hv, hr, hlength⟩ | ⟨v, hv, hr, hproducers⟩ := hstep.origin hv'
    · obtain ⟨hproducers, hs⟩ := h.new hj hv
      refine ⟨fun hnil => hproducers (List.length_eq_zero_iff.mp ?_), ?_⟩
      · rw [← hlength, hnil]
        rfl
      · rw [hr.bare]
        exact hs.mono hreads hwrites
    · rw [hr.bare]
      refine ⟨hproducers, hsyn v ?_⟩
      obtain ⟨hv, hlookup⟩ | ⟨-, -, hv⟩ := hv
      · exact Or.inr ⟨List.mem_of_getElem? hv, (lookup?_iff h.named hv).mp hlookup⟩
      · exact Or.inl ⟨_, hv⟩
  turned := fun {i x y} hi hr hl => by
    rcases hturned hi hr hl with hi | hthere
    · obtain ⟨v, hv, hname⟩ := h.turned hi hr hl
      obtain ⟨j, hj⟩ := List.getElem?_of_mem hv
      obtain ⟨v', hv', hn⟩ := hstep.stays hj
      exact ⟨v', List.mem_of_getElem? hv', hn.trans hname⟩
    · exact hthere

/-! ## One reshape -/

theorem Populated.weaken (h : Populated g reads writes k) (hreads : reads ≤ reads')
    (hwrites : writes ≤ writes')
    (hnone : ∀ {i x y}, reads ≤ i → i < reads' → g.Reshapes i x y → x.layout = none) :
    Populated g reads' writes' k where
  named := h.named
  base := h.base
  new := fun hj hu => ⟨(h.new hj hu).1, (h.new hj hu).2.mono hreads hwrites⟩
  turned := fun {i x y} hi hr hl => by
    by_cases hlt : i < reads
    · exact h.turned hlt hr hl
    · rw [hnone (Nat.not_lt.mp hlt) hi hr] at hl
      cases hl

/-- Completing the other form of a tensor once more changes nothing. -/
theorem completed_spliced {v : Tensor} {role : String} {id : TensorId}
    (h : v.bare = x.spliced role l id) :
    (v.completed (permutedDims l.inverse.perm x.moved.shape) l.inverse).bare =
      x.spliced role l id := by
  have hbare : (v.completed (permutedDims l.inverse.perm x.moved.shape) l.inverse).bare =
      v.bare.completed (permutedDims l.inverse.perm x.moved.shape) l.inverse := rfl
  rw [hbare, h]
  rfl

/-- The other form of a tensor, made from what has become of it. -/
theorem completed_derived {role : String} (hu : u.bare = x.bare.moved) (id : TensorId) :
    ((u.derived (synthesizedName role x.name) id).completed
      (permutedDims l.inverse.perm x.moved.shape) l.inverse).bare = x.spliced role l id := by
  have hderived : u.derived (synthesizedName role x.name) id =
      u.bare.derived (synthesizedName role x.name) id := rfl
  rw [hderived, hu, ← Tensor.bare_moved]
  rfl

theorem Populated.lookup_input (h : Populated g reads writes k) {input : TensorId}
    (hx : g.tensors[input.index]? = some x) :
    ∃ u, k.tensors[input.index]? = some u ∧ u.bare = x.bare.moved ∧ u.name = x.name ∧
      u.layout = x.layout ∧ u.shape = x.moved.shape := by
  obtain ⟨u, hu, hbare⟩ := h.base hx
  refine ⟨u, hu, hbare, by simpa using congrArg Tensor.name hbare,
    by simpa using congrArg Tensor.layout hbare, ?_⟩
  rw [← Tensor.bare_moved] at hbare
  simpa using congrArg Tensor.shape hbare

/-- Which transpose is shared: the one that an earlier reshape made. -/
theorem Populated.producerNamed?_isSome_iff (h : Populated g n writes k) (hg : g.Named)
    (hvacant : g.Vacant) {m : Nat} (hr : g.Reshapes m x y) (hl : x.layout.isSome = true) :
    (producerNamed? k (synthesizedName "Transposed" x.name)).isSome = true ↔
      ∃ i y, i < n ∧ g.Reshapes i x y := by
  constructor
  · intro hsome
    obtain ⟨⟨e, turn⟩, hfound⟩ := Option.isSome_iff_exists.mp hsome
    obtain ⟨u, he, hu, -⟩ := producerNamed?_eq_some.mp hfound
    have hname := (lookup?_iff h.named hu).mp he
    have hnew := fun t ht => hname ▸ (hvacant hr t ht).1 hl
    exact ((h.of_name hu hnew).2.2.eq_turned hg hr.mem_left hname).1
  · rintro ⟨i, y, hi, hr⟩
    obtain ⟨u, hu, hname⟩ := h.turned hi hr hl
    refine Option.isSome_iff_ne_none.mpr fun hnone => ?_
    cases hlookup : k.lookup? (synthesizedName "Transposed" x.name) with
    | none => exact (lookup?_eq_none h.named).mp hlookup u hu hname
    | some e =>
        obtain ⟨v, hv, hvn⟩ := lookup?_eq_some h.named hlookup
        exact (h.of_name hv fun t ht => hvn ▸ (hvacant hr t ht).1 hl).2.1
          (producerNamed?_eq_none.mp hnone e v hlookup hv)

section Operands

variable {input output : TensorId} (hg : g.Named) (hvacant : g.Vacant) (hr : g.Reshapes n x y)

include hg hvacant hr

theorem Populated.adaptInput (h : Populated g n n k) (hx : g.tensors[input.index]? = some x) :
    Populated g (n + 1) n (k.inputAdapted ⟨n⟩ input) := by
  obtain ⟨u, hu, hbare, hname, hlayout, hshape⟩ := h.lookup_input hx
  cases hl : x.layout with
  | none =>
      rw [inputAdapted_of_none hu (hlayout.trans hl)]
      refine h.weaken (Nat.le_succ n) (Nat.le_refl n) fun hle hlt hr' => ?_
      obtain rfl := Nat.le_antisymm hle (Nat.le_of_lt_succ hlt)
      rw [(hr.unique hr').1, hl]
  | some l =>
      rw [inputAdapted_of_some hu (hlayout.trans hl), inputPreserved]
      cases hshared : producerNamed? k (synthesizedName "Transposed" u.name) with
      | some found =>
          obtain ⟨e, turn⟩ := found
          obtain ⟨w, he, hw, -⟩ := producerNamed?_eq_some.mp hshared
          refine h.readingInstead fun hr' _ => ⟨w, List.mem_of_getElem? hw, ?_⟩
          rw [(hr.unique hr').1, (lookup?_iff h.named hw).mp he, hname]
      | none =>
          have hstep := inputSpliced_step k ⟨n⟩ input u l
          have hnames := names_inputSpliced k ⟨n⟩ input u l
          rw [hname, hshape] at hstep
          rw [hname] at hnames
          have hnew := fun t ht => (hvacant hr t ht).1 (by rw [hl]; rfl)
          refine h.splice hstep hnew (fun v hv => ?_) (Nat.le_succ n)
            (Nat.le_refl n) fun {i x' y'} hi hr' hl' => ?_
          · obtain ⟨id, hs⟩ : ∃ id, (v.completed (permutedDims l.inverse.perm x.moved.shape)
                l.inverse).bare = x.spliced "Transposed" l id := by
              rcases hv with ⟨id, rfl⟩ | ⟨hv, hvn⟩
              · exact ⟨id, completed_derived hbare id⟩
              · obtain ⟨j, hj⟩ := List.getElem?_of_mem hv
                obtain ⟨-, -, hs⟩ := h.of_name hj fun t ht => hvn ▸ hnew t ht
                obtain ⟨-, l', hl', hb⟩ := hs.eq_turned hg hr.mem_left hvn
                rw [hl] at hl'
                cases hl'
                exact ⟨_, completed_spliced hb⟩
            exact Or.inl ⟨n, x, y, l, id, Nat.lt_succ_self n, hr, hl, hs⟩
          · rcases Nat.lt_succ_iff_lt_or_eq.mp hi with hi | rfl
            · exact Or.inl hi
            · have hnew := nameOf?_withDerived h.named u (synthesizedName "Transposed" x.name)
              rw [nameOf?_eq, ← hnames, ← nameOf?_eq] at hnew
              obtain ⟨v, hv, hvn⟩ := Option.map_eq_some_iff.mp hnew
              exact Or.inr ⟨v, List.mem_of_getElem? hv, by rw [(hr.unique hr').1, hvn]⟩

theorem Populated.adaptOutput (h : Populated g (n + 1) n k)
    (hy : g.tensors[output.index]? = some y) :
    Populated g (n + 1) (n + 1) (k.outputAdapted ⟨n⟩ output) := by
  obtain ⟨u, hu, hbare, hname, hlayout, hshape⟩ := h.lookup_input hy
  cases hl : y.layout with
  | none =>
      rw [outputAdapted_of_none hu (hlayout.trans hl)]
      exact h.weaken (Nat.le_refl _) (Nat.le_succ n) fun hle hlt _ =>
        absurd hlt (Nat.not_lt.mpr hle)
  | some l =>
      rw [outputAdapted_of_some hu (hlayout.trans hl)]
      have hstep := outputPreserved_step k ⟨n⟩ output u l
      rw [hname, hshape] at hstep
      have hnew := fun t ht => (hvacant hr t ht).2 (by rw [hl]; rfl)
      refine h.splice hstep hnew (fun v hv => ?_) (Nat.le_refl _)
        (Nat.le_succ n) fun hi _ _ => Or.inl hi
      obtain ⟨id, hs⟩ : ∃ id, (v.completed (permutedDims l.inverse.perm y.moved.shape)
          l.inverse).bare = y.spliced "ToTranspose" l id := by
        rcases hv with ⟨id, rfl⟩ | ⟨hv, hvn⟩
        · exact ⟨id, completed_derived hbare id⟩
        · obtain ⟨j, hj⟩ := List.getElem?_of_mem hv
          obtain ⟨-, -, hs⟩ := h.of_name hj fun t ht => hvn ▸ hnew t ht
          obtain ⟨-, l', hl', hb⟩ := hs.eq_written hg hr.mem_right hvn
          rw [hl] at hl'
          cases hl'
          exact ⟨_, completed_spliced hb⟩
      exact Or.inr ⟨n, x, y, l, id, Nat.lt_succ_self n, hr, hl, hs⟩

end Operands

end Graph

end Relayout
