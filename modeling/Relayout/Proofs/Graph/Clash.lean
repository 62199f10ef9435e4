/-
# When adapting clashes

A graph that was read can be adapted unless one of its operands clashes.
`Graph.Clash` says which do, of the graph as it was read: a layout that cannot
be applied, a reshape whose operand was flattened behind its layout, or a source
tensor that has a layout and the name of a tensor to synthesize.  `Tagged`
follows the layouts, since a source tensor without one gets one if its name is
taken for a synthesized tensor.

The invariant of the pass is `Adapting`: which tensors carry a layout, and what
is left of the edges that operators still to be adapted rely on.
-/
import Relayout.Proofs.Graph.Sound

namespace Relayout

/-- A tensor whose rank is not that of its layout. -/
def Tensor.Misranked (t : Tensor) : Prop := ∃ l, t.layout = some l ∧ t.rank ≠ l.rank

namespace Graph

variable {g : Graph}

/-- Operator `i` is a reshape of the source from `x` to `y`. -/
def Reshapes (g : Graph) (i : Nat) (x y : Tensor) : Prop :=
  ∃ o input output, g.ops[i]? = some o ∧ o.kind = .reshape false ∧
    o.inputs[0]? = some input ∧ g.tensors[input.index]? = some x ∧
    o.outputs[0]? = some output ∧ g.tensors[output.index]? = some y

/-- The tensors that carry a layout when operator `n` is adapted. -/
inductive Tagged (g : Graph) : Nat → Tensor → Prop where
  | known {n : Nat} {t : Tensor} (h : t.layout.isSome = true) : Tagged g n t
  | turned {n i : Nat} {x y t : Tensor} (hi : i < n) (h : g.Reshapes i x y) (hx : Tagged g i x)
      (hname : t.name = synthesizedName "Transposed" x.name) (hproducers : t.producers = []) :
      Tagged g n t
  | spliced {n i : Nat} {x y t : Tensor} (hi : i < n) (h : g.Reshapes i x y) (hy : Tagged g i y)
      (hname : t.name = synthesizedName "ToTranspose" y.name) : Tagged g n t

theorem Reshapes.unique {i : Nat} {x y x' y' : Tensor} (h : g.Reshapes i x y)
    (h' : g.Reshapes i x' y') : x' = x ∧ y' = y := by
  obtain ⟨o, input, output, ho, -, hinput, hx, houtput, hy⟩ := h
  obtain ⟨o', input', output', ho', -, hinput', hx', houtput', hy'⟩ := h'
  rw [ho] at ho'
  cases ho'
  rw [hinput] at hinput'
  rw [houtput] at houtput'
  cases hinput'
  cases houtput'
  rw [hx] at hx'
  rw [hy] at hy'
  cases hx'
  cases hy'
  exact ⟨rfl, rfl⟩

theorem Tagged.mono {n m : Nat} {t : Tensor} (h : g.Tagged n t) (hle : n ≤ m) : g.Tagged m t := by
  cases h with
  | known h => exact .known h
  | turned hi h hx hname hproducers =>
      exact .turned (Nat.lt_of_lt_of_le hi hle) h hx hname hproducers
  | spliced hi h hy hname => exact .spliced (Nat.lt_of_lt_of_le hi hle) h hy hname

/-- What a reshape tags. -/
theorem tagged_succ {n : Nat} {x y : Tensor} (h : g.Reshapes n x y) (t : Tensor) :
    g.Tagged (n + 1) t ↔
      (g.Tagged n t ∨ g.Tagged n x ∧ t.name = synthesizedName "Transposed" x.name ∧
        t.producers = []) ∨ g.Tagged n y ∧ t.name = synthesizedName "ToTranspose" y.name := by
  constructor
  · intro ht
    cases ht with
    | known h => exact Or.inl (Or.inl (.known h))
    | turned hi h' hx hname hproducers =>
        rcases Nat.lt_succ_iff_lt_or_eq.mp hi with hi | rfl
        · exact Or.inl (Or.inl (.turned hi h' hx hname hproducers))
        · obtain ⟨rfl, -⟩ := h.unique h'
          exact Or.inl (Or.inr ⟨hx, hname, hproducers⟩)
    | spliced hi h' hy hname =>
        rcases Nat.lt_succ_iff_lt_or_eq.mp hi with hi | rfl
        · exact Or.inl (Or.inl (.spliced hi h' hy hname))
        · obtain ⟨-, rfl⟩ := h.unique h'
          exact Or.inr ⟨hy, hname⟩
  · rintro ((ht | ⟨hx, hname, hproducers⟩) | ⟨hy, hname⟩)
    · exact ht.mono (Nat.le_succ n)
    · exact .turned (Nat.lt_succ_self n) h hx hname hproducers
    · exact .spliced (Nat.lt_succ_self n) h hy hname

/-- Other operators tag nothing. -/
theorem tagged_succ_of_not {n : Nat} (h : ∀ x y, ¬g.Reshapes n x y) (t : Tensor) :
    g.Tagged (n + 1) t ↔ g.Tagged n t := by
  refine ⟨fun ht => ?_, fun ht => ht.mono (Nat.le_succ n)⟩
  cases ht with
  | known h => exact .known h
  | turned hi h' hx hname hproducers =>
      rcases Nat.lt_succ_iff_lt_or_eq.mp hi with hi | rfl
      · exact .turned hi h' hx hname hproducers
      · exact absurd h' (h _ _)
  | spliced hi h' hy hname =>
      rcases Nat.lt_succ_iff_lt_or_eq.mp hi with hi | rfl
      · exact .spliced hi h' hy hname
      · exact absurd h' (h _ _)

/-- The input of a reshape clashes. -/
def ClashesIn (g : Graph) (n : Nat) (x : Tensor) : Prop :=
  g.Tagged n x ∧ (x.Misranked ∨ ∃ t ∈ g.tensors,
    t.name = synthesizedName "Transposed" x.name ∧ t.layout.isSome = true ∧ t.producers = [])

/-- The output of a reshape clashes. -/
def ClashesOut (g : Graph) (n : Nat) (y : Tensor) : Prop :=
  g.Tagged n y ∧ (y.Misranked ∨ ∃ t ∈ g.tensors,
    t.name = synthesizedName "ToTranspose" y.name ∧ t.layout.isSome = true)

/-- A reshape clashes. -/
def ClashesAt (g : Graph) (n : Nat) : Prop :=
  ∃ x y, g.Reshapes n x y ∧ (g.ClashesIn n x ∨ g.ClashesOut n y)

/-- Some layout cannot be applied, or some reshape has an operand that
clashes. -/
def Clash (g : Graph) : Prop :=
  (∃ t ∈ g.tensors, ¬t.Movable) ∨
    ∃ n x y, g.Reshapes n x y ∧ (g.ClashesIn n x ∨ g.ClashesOut n y)

theorem movable_of_not_clash (h : ¬g.Clash) : ∀ t ∈ g.tensors, t.Movable := by
  intro t ht
  by_contra hnot
  exact h (Or.inl ⟨t, ht, hnot⟩)

theorem not_clashesAt_of_not_clash (h : ¬g.Clash) (n : Nat) : ¬g.ClashesAt n := by
  rintro ⟨x, y, hr, hc⟩
  exact h (Or.inr ⟨n, x, y, hr, hc⟩)

/-- What has become of a tensor `t`. -/
structure Carries (tagged : Prop) (t u : Tensor) : Prop where
  name : u.name = t.name
  known : t.layout.isSome = true →
    u.bare = t.bare.moved ∧ u.producers.length = t.producers.length
  opened : t.layout = none → u.status.isTransformed = false ∧
    (u.layout = none → u.producers.length = t.producers.length) ∧
    ∀ l, u.layout = some l → u.rank = l.rank ∧ u.producers ≠ []
  tagged_iff : u.layout.isSome = true ↔ tagged

/-- What has become of an operator `o` at position `i`: its inputs are as they
were from position `reads` on, its outputs from position `writes` on. -/
structure Awaits (reads writes i : Nat) (o o' : Operator) : Prop where
  kind : o'.kind = o.kind
  inputs : reads ≤ i → o'.inputs = o.inputs
  outputs : writes ≤ i → o'.outputs = o.outputs
  status : o'.status = .parsed ∨ o'.status = .transformed
  parsed : writes ≤ i → o'.status = .parsed

/-- The graph `g` while its operators are adapted in order. -/
structure Adapting (g : Graph) (tagged : Tensor → Prop) (reads writes : Nat) (k : Graph) :
    Prop where
  named : k.Named
  sound : k.Sound
  old : ∀ {i : Nat} {t : Tensor}, g.tensors[i]? = some t →
    ∃ u, k.tensors[i]? = some u ∧ Carries (tagged t) t u
  new : ∀ {i : Nat} {u : Tensor}, g.tensors.length ≤ i → k.tensors[i]? = some u →
    u.status.isTransformed = false
  ops : ∀ {i : Nat} {o : Operator}, g.ops[i]? = some o →
    ∃ o', k.ops[i]? = some o' ∧ Awaits reads writes i o o'
  reader : ∀ {i : Nat} {o : Operator} {x : TensorId} {u : Tensor}, reads ≤ i →
    g.ops[i]? = some o → o.inputs[0]? = some x → k.tensors[x.index]? = some u → ⟨i⟩ ∈ u.consumers
  writer : ∀ {i : Nat} {o : Operator} {y : TensorId} {u : Tensor}, writes ≤ i →
    g.ops[i]? = some o → o.outputs[0]? = some y → k.tensors[y.index]? = some u → ⟨i⟩ ∈ u.producers

namespace Carries

variable {tagged : Prop} {side : Side} {op turn : OpId} {t u u' : Tensor}

theorem congr {tagged' : Prop} (h : Carries tagged t u) (hiff : tagged ↔ tagged') :
    Carries tagged' t u :=
  ⟨h.name, h.known, h.opened, h.tagged_iff.trans hiff⟩

/-- Edges may change if the number of producers does not. -/
theorem rewired (h : Carries tagged t u) (hr : Rewired side op turn u u')
    (hlength : u'.producers.length = u.producers.length) : Carries tagged t u' := by
  have hnil : u'.producers = [] ↔ u.producers = [] := by
    rw [← List.length_eq_zero_iff, hlength, List.length_eq_zero_iff]
  refine ⟨hr.name.trans h.name, fun hl => ?_, fun hl => ?_, by rw [hr.layout]; exact h.tagged_iff⟩
  · exact ⟨hr.bare.trans (h.known hl).1, hlength.trans (h.known hl).2⟩
  · obtain ⟨hopen, hlen, hsome⟩ := h.opened hl
    rw [hr.status, hr.layout, hlength, Tensor.rank, hr.shape, ne_eq, hnil]
    exact ⟨hopen, hlen, hsome⟩

/-- A tensor without a layout is completed, and gets a producer. -/
theorem completed (h : Carries tagged t u) (hopen : u.status.isTransformed = false)
    {shape : List Nat} {l : Layout} (hrank : shape.length = l.rank)
    (hr : Rewired side op turn (u.completed shape l) u') (hproducers : u'.producers ≠ []) :
    Carries True t u' := by
  have hlayout : u'.layout = some l := hr.layout
  refine ⟨hr.name.trans h.name, fun hl => ?_, fun _ => ⟨?_, ?_, ?_⟩, by simp [hlayout]⟩
  · -- a tensor with a layout was moved
    obtain ⟨l', hl'⟩ := Option.isSome_iff_exists.mp hl
    have hstatus : u.status = .transformed := by
      have := congrArg Tensor.status (h.known hl).1
      rwa [Tensor.moved_status (t := t.bare) hl'] at this
    rw [hstatus] at hopen
    cases hopen
  · rw [hr.status]
    rfl
  · intro hnone
    rw [hlayout] at hnone
    cases hnone
  · intro l' hl'
    rw [hlayout] at hl'
    cases hl'
    exact ⟨by rw [Tensor.rank, hr.shape]; exact hrank, hproducers⟩

/-- A tensor that gained a producer was tagged. -/
theorem tagged_of_producers (h : Carries tagged t u) (hnil : t.producers = [])
    (hne : u.producers ≠ []) : tagged := by
  refine h.tagged_iff.mp (Option.isSome_iff_ne_none.mpr fun hnone => hne ?_)
  have hlength : u.producers.length = t.producers.length := by
    cases hl : t.layout with
    | none => exact (h.opened hl).2.1 hnone
    | some l => exact (h.known (by rw [hl]; rfl)).2
  rw [hnil] at hlength
  exact List.length_eq_zero_iff.mp hlength

/-- A tensor that was not tagged gained no producer. -/
theorem producers_nil (h : Carries tagged t u) (hopen : ¬tagged) (hl : t.layout = none)
    (hnil : u.producers = []) : t.producers = [] := by
  have hnone : u.layout = none :=
    Option.not_isSome_iff_eq_none.mp fun hsome => hopen (h.tagged_iff.mp hsome)
  have hlength := (h.opened hl).2.1 hnone
  rw [hnil] at hlength
  exact List.length_eq_zero_iff.mp hlength.symm

end Carries

theorem Awaits.weaken {reads writes reads' writes' i : Nat} {o o' : Operator}
    (h : Awaits reads writes i o o') (hreads : reads ≤ reads') (hwrites : writes ≤ writes') :
    Awaits reads' writes' i o o' where
  kind := h.kind
  inputs := fun hi => h.inputs (Nat.le_trans hreads hi)
  outputs := fun hi => h.outputs (Nat.le_trans hwrites hi)
  status := h.status
  parsed := fun hi => h.parsed (Nat.le_trans hwrites hi)

end Graph

end Relayout
