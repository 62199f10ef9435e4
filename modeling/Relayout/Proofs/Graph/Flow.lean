/-
# Where values come from

The checks ask that every value is written once, before it is read.  Of a list
of calls, `Flows` says it by names: what a call reads is given or was written by
an earlier call, and what it writes is new.  Lowering adds transposes that write
the other forms of tensors, which nothing else writes, so the lowered calls pass
the checks.
-/
import Relayout.Proofs.Graph.Lowered
import Relayout.Proofs.Target.Check

namespace Relayout

open Target (checkNodes)

variable {tag : String → Option Layout} {seen defined defined' : List String}
  {rest : List Target.Node} {x y : String} {calls : List Call} {given : String → Prop}

/-! ## Blocks -/

/-- What the transpose in front of a reshape writes, if there is one. -/
def turnedName (tag : String → Option Layout) (seen : List String) (x : String) : List String :=
  if (tag x).isSome ∧ x ∉ seen then [synthesizedName "Transposed" x] else []

/-- What the transpose behind a reshape writes, if there is one. -/
def restoredName (tag : String → Option Layout) (y : String) : List String :=
  if (tag y).isSome then [y] else []

theorem mem_turnedName {z : String} : z ∈ turnedName tag seen x ↔
    (tag x).isSome = true ∧ x ∉ seen ∧ z = synthesizedName "Transposed" x := by
  unfold turnedName
  split
  · rename_i h
    simp [h]
  · rename_i h
    simpa using fun h₁ h₂ => absurd ⟨h₁, h₂⟩ h

theorem mem_restoredName {z : String} :
    z ∈ restoredName tag y ↔ (tag y).isSome = true ∧ z = y := by
  unfold restoredName
  split <;> simp [*]

theorem checkNodes_turnBefore :
    checkNodes defined (turnBefore tag seen x ++ rest) = .ok defined' ↔
      (∀ z ∈ turnedName tag seen x, (x ≠ "" → x ∈ defined) ∧ z ∉ defined) ∧
        checkNodes (turnedName tag seen x ++ defined) rest = .ok defined' := by
  unfold turnBefore turnedName
  cases tag x with
  | none => simp
  | some l =>
      by_cases hx : x ∈ seen
      · simp [hx]
      · dsimp only
        rw [if_neg hx, if_pos ⟨Option.isSome_some, hx⟩, List.singleton_append,
          Target.checkNodes_cons (y := synthesizedName "Transposed" x) rfl]
        have hne := synthesizedName_ne_empty "Transposed" x
        constructor
        · rintro ⟨-, -, hin, hnew, hrest⟩
          exact ⟨fun z hz => List.mem_singleton.mp hz ▸ ⟨hin x (List.mem_singleton_self x), hnew⟩,
            hrest⟩
        · rintro ⟨hz, hrest⟩
          obtain ⟨hin, hnew⟩ := hz _ (List.mem_singleton_self _)
          exact ⟨by simp [turnNode], hne, fun v hv => List.mem_singleton.mp hv ▸ hin, hnew, hrest⟩

theorem checkNodes_turnAfter (hwritten : writtenName tag y ∈ defined) :
    checkNodes defined (turnAfter tag y ++ rest) = .ok defined' ↔
      (∀ z ∈ restoredName tag y, z ≠ "" ∧ z ∉ defined) ∧
        checkNodes (restoredName tag y ++ defined) rest = .ok defined' := by
  unfold turnAfter restoredName
  cases hl : tag y with
  | none => simp
  | some l =>
      have hmem : synthesizedName "ToTranspose" y ∈ defined := by
        simpa [writtenName, hl] using hwritten
      dsimp only
      rw [if_pos Option.isSome_some, List.singleton_append, Target.checkNodes_cons (y := y) rfl]
      constructor
      · rintro ⟨-, hne, -, hnew, hrest⟩
        exact ⟨fun z hz => List.mem_singleton.mp hz ▸ ⟨hne, hnew⟩, hrest⟩
      · rintro ⟨hz, hrest⟩
        obtain ⟨hne, hnew⟩ := hz _ (List.mem_singleton_self _)
        exact ⟨by simp [turnNode], hne, fun v hv _ => List.mem_singleton.mp hv ▸ hmem, hnew, hrest⟩

/-- The block of a reshape passes if what each of its nodes reads is there, and
what it writes is not. -/
theorem checkNodes_reshape {plain : Target.Node} {shape : Option String} {operand : String}
    (htype : plain.opType ≠ "") (hin : plain.inputs = [x, operand]) (hout : plain.outputs = [y]) :
    checkNodes defined ((Call.reshape x shape y).block tag seen plain) = .ok defined' ↔
      (∀ z ∈ turnedName tag seen x, (x ≠ "" → x ∈ defined) ∧ z ∉ defined) ∧
        (∀ v ∈ [readName tag x, operand], v ≠ "" → v ∈ turnedName tag seen x ++ defined) ∧
        writtenName tag y ≠ "" ∧ writtenName tag y ∉ turnedName tag seen x ++ defined ∧
        (∀ z ∈ restoredName tag y, z ≠ "" ∧
          z ∉ writtenName tag y :: (turnedName tag seen x ++ defined)) ∧
        defined' = restoredName tag y ++
          writtenName tag y :: (turnedName tag seen x ++ defined) := by
  have hafter : checkNodes (writtenName tag y :: (turnedName tag seen x ++ defined))
      (turnAfter tag y ++ []) = .ok defined' ↔ _ := checkNodes_turnAfter List.mem_cons_self
  rw [List.append_nil] at hafter
  have hnode : ({ plain with
      inputs := plain.inputs.set 0 (readName tag x)
      outputs := plain.outputs.set 0 (writtenName tag y) } : Target.Node).outputs =
        [writtenName tag y] := by
    rw [hout]
    rfl
  rw [Call.block, List.append_assoc, checkNodes_turnBefore, List.singleton_append,
    Target.checkNodes_cons hnode, hafter, checkNodes, hin, Except.ok.injEq, eq_comm (a := defined')]
  constructor
  · rintro ⟨h₁, -, hne, hreads, hnew, h₂⟩
    exact ⟨h₁, hreads, hne, hnew, h₂⟩
  · rintro ⟨h₁, hreads, hne, hnew, h₂⟩
    exact ⟨h₁, htype, hne, hreads, hnew, h₂⟩

theorem checkNodes_conv {plain : Target.Node} {w : String} {b : Option String}
    (htype : plain.opType ≠ "") (hout : plain.outputs = [y]) :
    checkNodes defined ((Call.conv x w b y).block tag seen plain) = .ok defined' ↔
      (∀ v ∈ plain.inputs, v ≠ "" → v ∈ defined) ∧ y ≠ "" ∧ y ∉ defined ∧
        defined' = y :: defined := by
  rw [Call.block, Target.checkNodes_cons hout, checkNodes, Except.ok.injEq, eq_comm (a := defined')]
  constructor
  · rintro ⟨-, hne, hreads, hnew, h⟩
    exact ⟨hreads, hne, hnew, h⟩
  · rintro ⟨hreads, hne, hnew, h⟩
    exact ⟨htype, hne, hreads, hnew, h⟩

/-! ## Calls -/

/-- All values that the block of a call makes, unless they are shared. -/
def Call.made (tag : String → Option Layout) : Call → List String
  | .conv _ _ _ y => [y]
  | .reshape x _ y => restoredName tag y ++ writtenName tag y :: turnedName tag [] x

/-- What is given, and what the first calls made. -/
def Made (calls : List Call) (tag : String → Option Layout) (given : String → Prop) (n : Nat)
    (name : String) : Prop :=
  given name ∨ ∃ i c, i < n ∧ calls[i]? = some c ∧ name ∈ c.made tag

/-- Calls whose values are written once, before they are read. -/
structure Flows (calls : List Call) (given : String → Prop) : Prop where
  reads : ∀ {i : Nat} {c : Call}, calls[i]? = some c → ∀ v ∈ c.inputs,
    given v ∨ ∃ j c', j < i ∧ calls[j]? = some c' ∧ c'.output = v
  fresh : ∀ {i : Nat} {c : Call}, calls[i]? = some c → ¬given c.output
  once : ∀ {i j : Nat} {c c' : Call}, calls[i]? = some c → calls[j]? = some c' → j < i →
    c'.output ≠ c.output
  named : ∀ {i : Nat} {c : Call}, calls[i]? = some c → c.output ≠ "" ∧ ¬Reserved c.output
  unspliced : ∀ subject, ¬given (synthesizedName "Transposed" subject) ∧
    ¬given (synthesizedName "ToTranspose" subject)

theorem mem_made_reshape {shape : Option String} {name : String} :
    name ∈ (Call.reshape x shape y).made tag ↔ name = y ∨
      ((tag y).isSome = true ∧ name = synthesizedName "ToTranspose" y) ∨
        ((tag x).isSome = true ∧ name = synthesizedName "Transposed" x) := by
  rw [Call.made, List.mem_append, List.mem_cons, mem_turnedName, mem_restoredName]
  unfold writtenName
  by_cases h : (tag y).isSome = true <;> simp [h]

/-- What the block of a reshape leaves defined. -/
theorem mem_defined_reshape {shape : Option String} {name : String}
    (hshared : (tag x).isSome = true → x ∈ seen → synthesizedName "Transposed" x ∈ defined) :
    name ∈ restoredName tag y ++ writtenName tag y :: (turnedName tag seen x ++ defined) ↔
      name ∈ defined ∨ name ∈ (Call.reshape x shape y).made tag := by
  have hturned : name ∈ turnedName tag seen x ++ defined ↔
      name ∈ defined ∨ (tag x).isSome = true ∧ name = synthesizedName "Transposed" x := by
    rw [List.mem_append, mem_turnedName]
    constructor
    · rintro (⟨htag, -, rfl⟩ | hmem)
      · exact Or.inr ⟨htag, rfl⟩
      · exact Or.inl hmem
    · rintro (hmem | ⟨htag, rfl⟩)
      · exact Or.inr hmem
      · by_cases hseen : x ∈ seen
        · exact Or.inr (hshared htag hseen)
        · exact Or.inl ⟨htag, hseen, rfl⟩
  have hmade : name ∈ (Call.reshape x shape y).made tag ↔
      name ∈ restoredName tag y ∨ name = writtenName tag y ∨
        (tag x).isSome = true ∧ name = synthesizedName "Transposed" x := by
    rw [Call.made, List.mem_append, List.mem_cons, mem_turnedName]
    simp
  rw [List.mem_append, List.mem_cons, hturned, hmade]
  constructor
  · rintro (h | h | h | h)
    exacts [Or.inr (Or.inl h), Or.inr (Or.inr (Or.inl h)), Or.inl h, Or.inr (Or.inr (Or.inr h))]
  · rintro (h | h | h | h)
    exacts [Or.inr (Or.inr (Or.inl h)), Or.inl h, Or.inr (Or.inl h), Or.inr (Or.inr (Or.inr h))]

theorem output_mem_made (c : Call) : c.output ∈ c.made tag := by
  cases c with
  | conv x w b y => exact List.mem_singleton_self y
  | reshape x shape y => exact mem_made_reshape.mpr (Or.inl rfl)

namespace Flows

variable (h : Flows calls given) {n : Nat} {c : Call} (hc : calls[n]? = some c)

include h hc

/-- What a call writes was not made before. -/
theorem not_made_output : ¬Made calls tag given n c.output := by
  rintro (hgiven | ⟨i, c', hi, hc', hmem⟩)
  · exact h.fresh hc hgiven
  · cases c' with
    | conv x w b y => exact h.once hc hc' hi (List.mem_singleton.mp hmem).symm
    | reshape x shape y =>
        have hname := (h.named hc).2
        rcases mem_made_reshape.mp hmem with heq | ⟨-, heq⟩ | ⟨-, heq⟩
        · exact h.once hc hc' hi heq.symm
        · exact hname (heq ▸ reserved_synthesizedName _ _)
        · exact hname (heq ▸ reserved_synthesizedName _ _)

/-- Nor was its other form. -/
theorem not_made_written :
    ¬Made calls tag given n (synthesizedName "ToTranspose" c.output) := by
  rintro (hgiven | ⟨i, c', hi, hc', hmem⟩)
  · exact (h.unspliced _).2 hgiven
  · have hname := (h.named hc').2
    cases c' with
    | conv x w b y =>
        exact hname (List.mem_singleton.mp hmem ▸ reserved_synthesizedName _ _)
    | reshape x shape y =>
        rcases mem_made_reshape.mp hmem with heq | ⟨-, heq⟩ | ⟨-, heq⟩
        · exact hname (heq ▸ reserved_synthesizedName _ _)
        · exact h.once hc hc' hi (synthesizedName_injective heq).symm
        · exact synthesizedName_transposed_ne_toTranspose _ _ heq.symm

omit hc in
/-- The other form of an operand was made by an earlier reshape of it. -/
theorem seen_of_made_turned (hmade : Made calls tag given n (synthesizedName "Transposed" x)) :
    x ∈ Call.turnedBefore calls n := by
  rcases hmade with hgiven | ⟨i, c', hi, hc', hmem⟩
  · exact absurd hgiven (h.unspliced _).1
  · have hname := (h.named hc').2
    cases c' with
    | conv a w b y =>
        exact absurd (List.mem_singleton.mp hmem ▸ reserved_synthesizedName _ _) hname
    | reshape a shape y =>
        rcases mem_made_reshape.mp hmem with heq | ⟨-, heq⟩ | ⟨-, heq⟩
        · exact absurd (heq ▸ reserved_synthesizedName _ _) hname
        · exact absurd heq (synthesizedName_transposed_ne_toTranspose _ _)
        · obtain rfl := synthesizedName_injective heq
          exact Call.mem_turnedBefore.mpr ⟨i, shape, y, hi, hc'⟩

end Flows

theorem made_turned_of_seen {n : Nat} (htag : (tag x).isSome = true)
    (hseen : x ∈ Call.turnedBefore calls n) :
    ∃ i c, i < n ∧ calls[i]? = some c ∧ synthesizedName "Transposed" x ∈ c.made tag := by
  obtain ⟨i, shape, y, hi, hc⟩ := Call.mem_turnedBefore.mp hseen
  exact ⟨i, _, hi, hc, mem_made_reshape.mpr (Or.inr (Or.inr ⟨htag, rfl⟩))⟩

/-! ## All calls -/

namespace Graph

variable {g : Graph}

theorem filterMap_nameOf?_of_map {ids : List TensorId} {names : List String}
    (h : ids.map g.nameOf? = names.map some) : ids.filterMap g.nameOf? = names := by
  have hid : ids.filterMap g.nameOf? = (ids.map g.nameOf?).filterMap id := by
    rw [List.filterMap_map]
    rfl
  rw [hid, h, List.filterMap_map]
  simp

/-- An operator that stands for a call has the node of it. -/
theorem Stands.nodeOf {i : Nat} {c : Call} {o : Operator} (h : g.Stands i c o) :
    (g.nodeOf o).opType ≠ "" ∧ (g.nodeOf o).inputs = c.inputs ∧
      (g.nodeOf o).outputs = [c.output] := by
  have houtputs : o.outputs.map g.nameOf? = [c.output].map some := h.outputs
  refine ⟨?_, filterMap_nameOf?_of_map h.inputs, filterMap_nameOf?_of_map houtputs⟩
  change o.kind.name ≠ ""
  cases o.kind <;> simp [Kind.name]

theorem loweredAt_eq {i : Nat} {c : Call} {o : Operator} (hc : calls[i]? = some c)
    (ho : g.ops[i]? = some o) :
    g.loweredAt calls tag i = c.block tag (Call.turnedBefore calls i) (g.nodeOf o) := by
  rw [loweredAt, hc, ho]

/-- The names that are defined once the first `n` calls have run: those given,
and those that the calls made. -/
structure DefinedUpTo (calls : List Call) (tag : String → Option Layout) (given : String → Prop)
    (start : List String) (n : Nat) (defined : List String) : Prop where
  made : ∀ name ∈ defined, Made calls tag given n name
  start : ∀ name ∈ start, name ∈ defined
  there : ∀ {i : Nat} {c : Call}, i < n → calls[i]? = some c → ∀ name ∈ c.made tag, name ∈ defined

/-- One more call has run. -/
theorem DefinedUpTo.succ {start : List String} {n : Nat} {c : Call}
    (h : DefinedUpTo calls tag given start n defined) (hc : calls[n]? = some c)
    (hmem : ∀ name, name ∈ defined' ↔ name ∈ defined ∨ name ∈ c.made tag) :
    DefinedUpTo calls tag given start (n + 1) defined' where
  made := by
    intro name hname
    rcases (hmem name).mp hname with hname | hname
    · rcases h.made name hname with hgiven | ⟨i, c', hi, hc', hmade⟩
      · exact Or.inl hgiven
      · exact Or.inr ⟨i, c', Nat.lt_succ_of_lt hi, hc', hmade⟩
    · exact Or.inr ⟨n, c, Nat.lt_succ_self n, hc, hname⟩
  start := fun name hname => (hmem name).mpr (Or.inl (h.start name hname))
  there := by
    intro i c' hi hc' name hname
    refine (hmem name).mpr ?_
    rcases Nat.lt_succ_iff_lt_or_eq.mp hi with hi | rfl
    · exact Or.inl (h.there hi hc' name hname)
    · rw [hc] at hc'
      cases hc'
      exact Or.inr hname

section Step

variable {start : List String} {n : Nat} {c : Call} {o : Operator}

/-- What a call reads is defined, if its node is among those that were looked at
for what is given. -/
theorem DefinedUpTo.mem_of_read (h : DefinedUpTo calls tag given start n defined)
    (hflow : Flows calls given) (hc : calls[n]? = some c) {v : String} (hv : v ∈ c.inputs)
    (hstart : given v → v ∈ start) : v ∈ defined := by
  rcases hflow.reads hc v hv with hgiven | ⟨j, c', hj, hc', rfl⟩
  · exact h.start v (hstart hgiven)
  · exact h.there hj hc' _ (output_mem_made c')

/-- What the reshape of a block reads is defined behind the transpose in front. -/
theorem DefinedUpTo.mem_of_readName {x y : String} {shape : Option String}
    (h : DefinedUpTo calls tag given start n defined) (hflow : Flows calls given)
    (hc : calls[n]? = some (.reshape x shape y))
    (hstart : ∀ v ∈ [readName tag x, shape.getD (synthesizedName "Vector" y)],
      given v → v ∈ start) {v : String}
    (hv : v ∈ [readName tag x, shape.getD (synthesizedName "Vector" y)]) :
    v ∈ turnedName tag (Call.turnedBefore calls n) x ++ defined := by
  have hread := hstart v hv
  rcases List.mem_cons.mp hv with rfl | hv
  · by_cases htag : (tag x).isSome = true
    · rw [readName, if_pos htag]
      by_cases hmem : x ∈ Call.turnedBefore calls n
      · obtain ⟨i, c', hi, hc', hmade⟩ := made_turned_of_seen htag hmem
        exact List.mem_append_right _ (h.there hi hc' _ hmade)
      · exact List.mem_append_left _ (mem_turnedName.mpr ⟨htag, hmem, rfl⟩)
    · rw [readName, if_neg htag] at hread ⊢
      exact List.mem_append_right _ (h.mem_of_read hflow hc List.mem_cons_self hread)
  · exact List.mem_append_right _ (h.mem_of_read hflow hc (List.mem_cons_of_mem _ hv) hread)

/-- The output of a call is not yet defined behind a transpose in front of it. -/
theorem DefinedUpTo.output_fresh (h : DefinedUpTo calls tag given start n defined)
    (hflow : Flows calls given) (hc : calls[n]? = some c) (x : String) :
    c.output ∉ turnedName tag (Call.turnedBefore calls n) x ++ defined := by
  intro hmem
  rcases List.mem_append.mp hmem with hmem | hmem
  · exact (hflow.named hc).2 ((mem_turnedName.mp hmem).2.2 ▸ reserved_synthesizedName _ _)
  · exact hflow.not_made_output hc (h.made _ hmem)

/-- Nor is the form in which a reshape leaves its output. -/
theorem DefinedUpTo.writtenName_fresh (h : DefinedUpTo calls tag given start n defined)
    (hflow : Flows calls given) (hc : calls[n]? = some c) (x : String) :
    writtenName tag c.output ∉ turnedName tag (Call.turnedBefore calls n) x ++ defined := by
  unfold writtenName
  split
  · intro hmem
    rcases List.mem_append.mp hmem with hmem | hmem
    · exact synthesizedName_transposed_ne_toTranspose _ _ (mem_turnedName.mp hmem).2.2.symm
    · exact hflow.not_made_written hc (h.made _ hmem)
  · exact h.output_fresh hflow hc x

/-- The block of a reshape passes the checks. -/
theorem DefinedUpTo.checkReshape {x y : String} {shape : Option String}
    (h : DefinedUpTo calls tag given start n defined) (hflow : Flows calls given)
    (hc : calls[n]? = some (.reshape x shape y)) (hstands : g.Stands n (.reshape x shape y) o)
    (hstart : ∀ node ∈ (Call.reshape x shape y).block tag (Call.turnedBefore calls n) (g.nodeOf o),
      ∀ v ∈ node.inputs, given v → v ∈ start) :
    ∃ defined', checkNodes defined ((Call.reshape x shape y).block tag
        (Call.turnedBefore calls n) (g.nodeOf o)) = .ok defined' ∧
      DefinedUpTo calls tag given start (n + 1) defined' := by
  obtain ⟨htype, hin, hout⟩ := hstands.nodeOf
  have hname := hflow.named hc
  have hself : ∀ v ∈ [readName tag x, shape.getD (synthesizedName "Vector" y)],
      given v → v ∈ start := fun v hv => hstart { g.nodeOf o with
        inputs := (g.nodeOf o).inputs.set 0 (readName tag x)
        outputs := (g.nodeOf o).outputs.set 0 (writtenName tag y) } (by simp [Call.block]) v
        (by rw [hin]; exact hv)
  refine ⟨_, (checkNodes_reshape htype hin hout).mpr ⟨fun z hz => ?_, fun v hv _ => ?_, ?_,
    h.writtenName_fresh hflow hc x, fun z hz => ?_, rfl⟩,
    h.succ hc fun name => mem_defined_reshape fun htag hmem => ?_⟩
  · -- the operand is read by the transpose in front, unless an earlier one turned it
    obtain ⟨htag, hunseen, rfl⟩ := mem_turnedName.mp hz
    refine ⟨fun _ => ?_, fun hmem => hunseen (hflow.seen_of_made_turned (h.made _ hmem))⟩
    obtain ⟨l, hl⟩ := Option.isSome_iff_exists.mp htag
    refine h.mem_of_read hflow hc List.mem_cons_self
      (hstart (turnNode (synthesizedName "Transposed" x) l.inverse.perm x
        (synthesizedName "Transposed" x)) ?_ x (List.mem_singleton_self x))
    rw [Call.block, turnBefore, hl]
    simp [hunseen]
  · exact h.mem_of_readName hflow hc hself hv
  · unfold writtenName
    split
    · exact synthesizedName_ne_empty _ _
    · exact hname.1
  · obtain ⟨htag, rfl⟩ := mem_restoredName.mp hz
    refine ⟨hname.1, fun hmem => ?_⟩
    rw [writtenName, if_pos htag] at hmem
    rcases List.mem_cons.mp hmem with heq | hmem
    · exact hname.2 (heq ▸ reserved_synthesizedName _ _)
    · exact h.output_fresh hflow hc x hmem
  · obtain ⟨i, c', hi, hc', hmade⟩ := made_turned_of_seen htag hmem
    exact h.there hi hc' _ hmade

/-- The block of a call passes the checks. -/
theorem DefinedUpTo.checkBlock (h : DefinedUpTo calls tag given start n defined)
    (hflow : Flows calls given) (hc : calls[n]? = some c) (hstands : g.Stands n c o)
    (hstart : ∀ node ∈ c.block tag (Call.turnedBefore calls n) (g.nodeOf o),
      ∀ v ∈ node.inputs, given v → v ∈ start) :
    ∃ defined', checkNodes defined (c.block tag (Call.turnedBefore calls n) (g.nodeOf o)) =
      .ok defined' ∧ DefinedUpTo calls tag given start (n + 1) defined' := by
  cases c with
  | conv x w b y =>
      obtain ⟨htype, hin, hout⟩ := hstands.nodeOf
      have hfresh : y ∉ defined := fun hmem => hflow.not_made_output hc (h.made _ hmem)
      refine ⟨y :: defined, (checkNodes_conv htype hout).mpr ⟨fun v hv _ => ?_, (hflow.named hc).1,
        hfresh, rfl⟩, h.succ hc fun name => ?_⟩
      · exact h.mem_of_read hflow hc (hin ▸ hv) (hstart _ (List.mem_singleton_self _) v hv)
      · rw [Call.made, List.mem_cons, List.mem_singleton, or_comm]
  | reshape x shape y => exact h.checkReshape hflow hc hstands hstart

end Step

/-- All blocks pass the checks, one after another. -/
theorem Readable.checkNodes_lowered (h : g.Readable calls tag) (hflow : Flows calls given)
    {start : List String} (hgiven : ∀ name ∈ start, given name)
    (hstart : ∀ node ∈ g.lowered calls tag, ∀ v ∈ node.inputs, given v → v ∈ start) :
    ∃ defined, checkNodes start (g.lowered calls tag) = .ok defined ∧
      DefinedUpTo calls tag given start g.ops.length defined := by
  suffices hupTo : ∀ n, n ≤ g.ops.length → ∃ defined,
      checkNodes start ((List.range n).flatMap (g.loweredAt calls tag)) = .ok defined ∧
        DefinedUpTo calls tag given start n defined from hupTo _ (Nat.le_refl _)
  intro n
  induction n with
  | zero =>
      exact fun _ => ⟨start, rfl, fun name hname => Or.inl (hgiven name hname),
        fun _ hname => hname, fun hi => absurd hi (Nat.not_lt_zero _)⟩
  | succ n ih =>
      intro hn
      obtain ⟨defined, hcheck, hdefined⟩ := ih (Nat.le_of_succ_le hn)
      have hc := List.getElem?_eq_getElem (h.length ▸ Nat.lt_of_succ_le hn)
      obtain ⟨o, ho, hstands⟩ := h.stands hc
      have hat : g.loweredAt calls tag n = _ := loweredAt_eq hc ho
      obtain ⟨defined', hblock, hdefined'⟩ := hdefined.checkBlock hflow hc hstands
        fun node hnode => hstart node (List.mem_flatMap.mpr
          ⟨n, List.mem_range.mpr (Nat.lt_of_succ_le hn), hat ▸ hnode⟩)
      refine ⟨defined', ?_, hdefined'⟩
      rw [List.range_succ, List.flatMap_append, List.flatMap_singleton, Target.checkNodes_append,
        hcheck, hat]
      exact hblock

end Graph

end Relayout
