/-
# What stands in for an operand

Adapting leads a reshape from an operand with a layout to the operand's other
form, which is found by its name.  So of every graph that was read, whatever its
tensors are called, the first slots of the reshapes are known by name: a slot
that held an operand with a layout holds the tensor that has the name of its
other form, be it new, put in for an earlier reshape or a tensor of the source.
`Substitutes` says so after each change of the pass, and that no other slot of
the inputs changes.
-/
import Relayout.Proofs.Graph.Transposes

namespace Relayout.Graph

variable {g k k' : Graph} {reads writes reads' writes' i n : Nat} {o o' : Operator}
  {input output e : TensorId} {x y : Tensor} {l : Layout}

/-- What has become of the slots of operator `i`, if the inputs before `reads`
and the outputs before `writes` were adapted. -/
structure Substituted (g k : Graph) (reads writes i : Nat) (o o' : Operator) : Prop where
  others : ∀ slot ≠ 0, o'.inputs[slot]? = o.inputs[slot]?
  read : ∀ {input x l}, i < reads → g.ReadsTagged i input x l →
    o'.inputs[0]?.bind k.nameOf? = some (synthesizedName "Transposed" x.name)
  written : ∀ {output y l}, i < writes → g.WritesTagged i output y l →
    o'.outputs[0]?.bind k.nameOf? = some (synthesizedName "ToTranspose" y.name)

/-- The graph `g` while its operands are replaced by what stands in for them. -/
def Substitutes (g : Graph) (reads writes : Nat) (k : Graph) : Prop :=
  ∀ ⦃i o⦄, g.ops[i]? = some o → ∃ o', k.ops[i]? = some o' ∧ Substituted g k reads writes i o o'

theorem substitutes_moved (g : Graph) : Substitutes g 0 0 g.moved := fun _ o ho =>
  ⟨o, ho, fun _ _ => rfl, fun hi => absurd hi (Nat.not_lt_zero _),
    fun hi => absurd hi (Nat.not_lt_zero _)⟩

/-- Names in slots stay. -/
theorem Keeps.bind_nameOf? (h : k.Keeps k') {slot : Option TensorId} {name : String}
    (hname : slot.bind k.nameOf? = some name) : slot.bind k'.nameOf? = some name := by
  obtain ⟨id, hid, hname⟩ := Option.bind_eq_some_iff.mp hname
  rw [hid, Option.bind_some, h _ _ hname]

/-- A change of the names that are there and of nothing in the slots. -/
theorem Substituted.keep {o₁ : Operator} (h : Substituted g k reads writes i o o₁)
    (hkeeps : k.Keeps k') (hins : o'.inputs = o₁.inputs) (houts : o'.outputs = o₁.outputs)
    (hreads : i < reads' → i < reads) (hwrites : i < writes' → i < writes) :
    Substituted g k' reads' writes' i o o' where
  others := fun slot hslot => by rw [hins, h.others slot hslot]
  read := fun hi hreads' => by
    rw [hins]
    exact hkeeps.bind_nameOf? (h.read (hreads hi) hreads')
  written := fun hi hwrites' => by
    rw [houts]
    exact hkeeps.bind_nameOf? (h.written (hwrites hi) hwrites')

/-- A change of operator `n` alone. -/
theorem Substitutes.step (h : Substitutes g reads writes k) (hE : Extends n k k')
    (hn : n < g.ops.length) (hreads : ∀ i ≠ n, i < reads' → i < reads)
    (hwrites : ∀ i ≠ n, i < writes' → i < writes)
    (hop : ∀ {o o₁}, g.ops[n]? = some o → k.ops[n]? = some o₁ →
      Substituted g k reads writes n o o₁ →
      ∃ o', k'.ops[n]? = some o' ∧ Substituted g k' reads' writes' n o o') :
    Substitutes g reads' writes' k' := by
  intro i o ho
  obtain ⟨o₁, ho₁, hs⟩ := h ho
  by_cases hi : i = n
  · subst hi
    exact hop ho ho₁ hs
  · exact ⟨o₁, hE.ops hi ho₁, hs.keep hE.keeps rfl rfl (hreads i hi) (hwrites i hi)⟩

/-! ## One side of a reshape -/

/-- The first input is replaced. -/
theorem Substituted.withInput {o₁ : Operator} (h : Substituted g k n n n o o₁)
    (hat : g.ReshapeAt n o input output x y) (h0 : o₁.inputs[0]? = some input)
    (he : k'.nameOf? e = some (synthesizedName "Transposed" x.name))
    (hins : o'.inputs = o₁.inputs.set 0 e) :
    Substituted g k' (n + 1) n n o o' where
  others := fun slot hslot => by
    rw [hins, List.getElem?_set_ne (Ne.symm hslot), h.others slot hslot]
  read := fun _ hreads => by
    have hlt := (List.getElem?_eq_some_iff.mp h0).1
    obtain ⟨-, rfl, -⟩ := hat.readsTagged_unique hreads
    rw [hins, List.getElem?_set_self hlt, Option.bind_some, he]
  written := fun hi => absurd hi (Nat.lt_irrefl n)

/-- The first output is replaced. -/
theorem Substituted.withOutput {o₁ : Operator} (h : Substituted g k (n + 1) n n o o₁)
    (hat : g.ReshapeAt n o input output x y) (hkeeps : k.Keeps k')
    (h0 : o₁.outputs[0]? = some output)
    (he : k'.nameOf? e = some (synthesizedName "ToTranspose" y.name))
    (hins : o'.inputs = o₁.inputs) (houts : o'.outputs = o₁.outputs.set 0 e) :
    Substituted g k' (n + 1) (n + 1) n o o' where
  others := fun slot hslot => by rw [hins, h.others slot hslot]
  read := fun hi hreads => by
    rw [hins]
    exact hkeeps.bind_nameOf? (h.read hi hreads)
  written := fun _ hwrites => by
    have hlt := (List.getElem?_eq_some_iff.mp h0).1
    obtain ⟨-, rfl, -⟩ := hat.writesTagged_unique hwrites
    rw [houts, List.getElem?_set_self hlt, Option.bind_some, he]

/-- Adapting the input of reshape `n`. -/
theorem Substitutes.adaptInput (h : Substitutes g n n k) (hk : Adapting g (g.Tagged n) n n k)
    (hat : g.ReshapeAt n o input output x y) :
    Substitutes g (n + 1) n (k.inputAdapted ⟨n⟩ input) := by
  have hn := (List.getElem?_eq_some_iff.mp hat.op).1
  obtain ⟨u, hu, hcarries⟩ := hk.old hat.source
  obtain ⟨q, hq, hawaits⟩ := hk.ops hat.op
  have h0 : q.inputs[0]? = some input := by rw [hawaits.inputs (Nat.le_refl n), hat.reads]
  cases hl : u.layout with
  | none =>
      rw [inputAdapted_of_none hu hl]
      refine h.step (.refl n k) hn (fun i hi hlt => by omega) (fun _ _ => id) ?_
      intro o₁ o₂ ho₁ ho₂ hs
      refine ⟨o₂, ho₂, hs.others, fun _ hreads => ?_, hs.written⟩
      -- an operand that had a layout still has one
      obtain ⟨-, rfl, hlayout⟩ := hat.readsTagged_unique hreads
      have htagged := hcarries.tagged_iff.mpr (.known (by rw [hlayout]; rfl))
      rw [hl] at htagged
      cases htagged
  | some l =>
      rw [inputAdapted_of_some hu hl, inputPreserved]
      cases hshared : producerNamed? k (synthesizedName "Transposed" u.name) with
      | some found =>
          obtain ⟨e, turn⟩ := found
          obtain ⟨v, he, -, -⟩ := producerNamed?_eq_some.mp hshared
          have hkeeps := keeps_readingInstead k ⟨n⟩ input e
          have hE : Extends n k (k.readingInstead ⟨n⟩ input e) :=
            .of_modify [] hkeeps (by rw [List.append_nil]; rfl)
          refine h.step hE hn (fun i hi hlt => by omega) (fun _ _ => id) ?_
          intro o₁ o₂ ho₁ ho₂ hs
          obtain rfl := Option.some.inj (hat.op.symm.trans ho₁)
          obtain rfl := Option.some.inj (hq.symm.trans ho₂)
          refine ⟨_, ops_readingInstead hq input e,
            hs.withInput hat h0 (hkeeps _ _ ?_) rfl⟩
          rw [(hk.named _ _).mp he, hcarries.name]
      | none =>
          have hkeeps := keeps_inputSpliced k ⟨n⟩ input u l
          have hE : Extends n k (k.inputSpliced ⟨n⟩ input u l) :=
            .of_modify _ hkeeps (inputSpliced_ops k ⟨n⟩ input u l)
          refine h.step hE hn (fun i hi hlt => by omega) (fun _ _ => id) ?_
          intro o₁ o₂ ho₁ ho₂ hs
          obtain rfl := Option.some.inj (hat.op.symm.trans ho₁)
          obtain rfl := Option.some.inj (hq.symm.trans ho₂)
          refine ⟨_, (ops_inputSpliced hq input u l).1, hs.withInput hat h0 ?_ rfl⟩
          rw [nameOf?_inputSpliced hk.named, hcarries.name]

/-- Adapting the output of reshape `n`. -/
theorem Substitutes.adaptOutput {tagged : Tensor → Prop} (h : Substitutes g (n + 1) n k)
    (hk : Adapting g tagged (n + 1) n k) (htag : tagged y ↔ g.Tagged n y)
    (hat : g.ReshapeAt n o input output x y) :
    Substitutes g (n + 1) (n + 1) (k.outputAdapted ⟨n⟩ output) := by
  have hn := (List.getElem?_eq_some_iff.mp hat.op).1
  obtain ⟨u, hu, hcarries⟩ := hk.old hat.target
  obtain ⟨q, hq, hawaits⟩ := hk.ops hat.op
  have h0 : q.outputs[0]? = some output := by rw [hawaits.outputs (Nat.le_refl n), hat.writes]
  cases hl : u.layout with
  | none =>
      rw [outputAdapted_of_none hu hl]
      refine h.step (.refl n k) hn (fun _ _ => id) (fun i hi hlt => by omega) ?_
      intro o₁ o₂ ho₁ ho₂ hs
      refine ⟨o₂, ho₂, hs.others, hs.read, fun _ hwrites => ?_⟩
      obtain ⟨-, rfl, hlayout⟩ := hat.writesTagged_unique hwrites
      have htagged := hcarries.tagged_iff.mpr (htag.mpr (.known (by rw [hlayout]; rfl)))
      rw [hl] at htagged
      cases htagged
  | some l =>
      rw [outputAdapted_of_some hu hl]
      have hkeeps := keeps_outputPreserved k ⟨n⟩ output u l
      have hE : Extends n k (k.outputPreserved ⟨n⟩ output u l) :=
        .of_modify _ hkeeps (outputPreserved_ops k ⟨n⟩ output u l)
      refine h.step hE hn (fun _ _ => id) (fun i hi hlt => by omega) ?_
      intro o₁ o₂ ho₁ ho₂ hs
      obtain rfl := Option.some.inj (hat.op.symm.trans ho₁)
      obtain rfl := Option.some.inj (hq.symm.trans ho₂)
      refine ⟨_, (ops_outputPreserved hq output u l).1, hs.withOutput hat hkeeps h0 ?_ rfl rfl⟩
      rw [nameOf?_outputPreserved hk.named, hcarries.name]

/-! ## The whole pass -/

/-- What the pass makes of the slots of an operator. -/
theorem Intake.substituted {s : Scope} {layouts : SortedMap ExplicitLayout}
    (h : Intake s layouts g) (hclash : ¬g.Clash) (ho : g.ops[i]? = some o) :
    ∃ o', g.adapted.ops[i]? = some o' ∧
      Substituted g g.adapted g.ops.length g.ops.length i o o' := by
  refine h.adapted_induction (P := Substitutes g) hclash (substitutes_moved g) ?_ ?_ ?_ ?_ ho
  · intro n k hn hno hS
    refine hS.step (.refl n k) hn (fun i hi hlt => by omega) (fun i hi hlt => by omega) ?_
    rintro o₁ o₂ - ho₂ hs
    refine ⟨o₂, ho₂, hs.others, ?_, ?_⟩
    · rintro input x l - ⟨o', output, y, hat, -⟩
      exact absurd hat.reshapes (hno x y)
    · rintro output y l - ⟨o', input, x, hat, -⟩
      exact absurd hat.reshapes (hno x y)
  · intro n o input output x y k hat hk hS
    exact hS.adaptInput hk hat
  · intro n o input output x y k tagged hat hk htag hS
    exact hS.adaptOutput hk htag hat
  · intro n k hn hS
    exact hS.step (extends_marked n k) hn (fun _ _ => id) (fun _ _ => id) fun _ ho₂ hs =>
      ⟨_, ops_marked ho₂, hs.keep (extends_marked n k).keeps rfl rfl id id⟩

end Relayout.Graph
