/-
# Adapting twice

What was moved is not moved again, and what was adapted is not adapted again: the
pass looks at how far each tensor and each operator has come.  But a tensor that
is made on the way has only been read, as it seems, and it has a layout, the one
that leads back; a second pass takes it for one that waits and moves it.  So a
second pass changes a graph just where such a layout changes the shape of its
tensor, or its data.
-/
import Relayout.Proofs.Graph.Transposes
import Relayout.Proofs.Graph.Written

namespace Relayout

theorem Status.eq_parsed {status : Status} :
    status.isParsed = true → status.isTransformed = false → status = .parsed := by
  cases status <;> decide

namespace Tensor

variable {t : Tensor} {l : Layout}

/-- A tensor, apart from how far it has come. -/
def ageless (t : Tensor) : Tensor := { t with status := .transformed }

/-- Moving the tensor changes neither its shape nor its data. -/
def Rests (t : Tensor) : Prop := t.moved.shape = t.shape ∧ t.moved.data = t.data

theorem rests_of_layout_none (h : t.layout = none) : t.Rests := by
  rw [Rests, moved_of_layout_none h]
  exact ⟨rfl, rfl⟩

/-- Moving changes a shape, data and how far the tensor has come. -/
theorem moved_eq (t : Tensor) :
    t.moved = { t with
      shape := t.moved.shape
      data := t.moved.data
      status := t.moved.status } := by
  unfold moved
  split
  · rfl
  · split <;> rfl

theorem ageless_moved_iff : t.moved.ageless = t.ageless ↔ t.Rests := by
  constructor
  · intro h
    have hshape : t.moved.ageless.shape = t.ageless.shape := congrArg Tensor.shape h
    have hdata : t.moved.ageless.data = t.ageless.data := congrArg Tensor.data h
    exact ⟨hshape, hdata⟩
  · rintro ⟨hshape, hdata⟩
    rw [t.moved_eq, hshape, hdata]
    rfl

end Tensor

/-- A layout leaves a shape as it is if the way back does. -/
theorem Layout.permutedDims_inverse_eq_self (l : Layout) {shape : List Nat}
    (h : shape.length = l.rank) :
    permutedDims l.inverse.perm shape = shape ↔ permutedDims l.perm shape = shape := by
  constructor
  · intro heq
    have := l.inverse.permutedDims_inverse (h.trans l.rank_inverse.symm)
    rwa [heq] at this
  · intro heq
    have := l.permutedDims_inverse h
    rwa [heq] at this

/-- An operator that adapting has nothing to do for. -/
def Operator.Idle (o : Operator) : Prop :=
  o.status = .transformed ∨ o.status = .parsed ∧ ∃ perm, o.kind = .transpose perm

namespace Graph

variable {s : Scope} {layouts : SortedMap ExplicitLayout} {g g' k k' : Graph} {t u x y : Tensor}
  {i n : Nat} {o : Operator} {l : Layout}

/-! ## Idle operators -/

/-- Adapting an idle operator marks it. -/
theorem transformOp_run (ho : k.ops[n]? = some o) (h : o.Idle) :
    transformOp ⟨n⟩ k = .ok () (k.marked n) := by
  unfold transformOp
  rw [Step.run_bind_of_ok (run_op ho)]
  rcases h with hstatus | ⟨hstatus, perm, hkind⟩
  · have hsame : k.marked n = k := by
      refine congrArg (fun os => { k with ops := os }) (List.ext_getElem? fun i => ?_)
      rw [List.getElem?_modify]
      by_cases hi : n = i
      · subst hi
        rw [ho, ← hstatus]
        simp
      · simp [hi]
    rw [Step.run_bind_of_ok (Step.run_require (by rw [hstatus]; rfl) _ k),
      if_pos (by rw [hstatus]; rfl), hsame]
    rfl
  · rw [Step.run_bind_of_ok (Step.run_require (by rw [hstatus]; rfl) _ k),
      if_neg (by rw [hstatus]; decide), adapt, hkind]
    refine (run_updateOp (f := fun o => { o with status := .transformed }) ho ?_)
    rw [Operator.advance, hstatus]
    rfl

/-- A graph whose operators before `n` are marked. -/
def markedUpTo (k : Graph) (n : Nat) : Graph :=
  { k with ops := k.ops.zipIdx.map fun (o, i) =>
      if i < n then { o with status := .transformed } else o }

theorem getElem?_markedUpTo (n i : Nat) :
    (k.markedUpTo n).ops[i]? =
      k.ops[i]?.map fun o => if i < n then { o with status := .transformed } else o := by
  simp [markedUpTo, List.getElem?_zipIdx, Option.map_map, Function.comp_def]

theorem marked_markedUpTo (n : Nat) : (k.markedUpTo n).marked n = k.markedUpTo (n + 1) := by
  refine congrArg (fun os => { k with ops := os }) (List.ext_getElem? fun i => ?_)
  have hi := getElem?_markedUpTo (k := k) (n + 1) i
  rw [markedUpTo] at hi
  rw [hi, List.getElem?_modify, getElem?_markedUpTo]
  by_cases hn : n = i
  · subst hn
    cases k.ops[n]? <;> simp
  · have hiff : i < n + 1 ↔ i < n := by omega
    cases k.ops[i]? <;> simp [hn, hiff]

/-- A graph all of whose operators are marked. -/
def markedAll (k : Graph) : Graph :=
  { k with ops := k.ops.map fun o => { o with status := .transformed } }

theorem markedUpTo_length (k : Graph) : k.markedUpTo k.ops.length = k.markedAll := by
  refine congrArg (fun os => { k with ops := os }) (List.ext_getElem? fun i => ?_)
  have hi := getElem?_markedUpTo (k := k) k.ops.length i
  rw [markedUpTo] at hi
  rw [hi, List.getElem?_map]
  by_cases hlt : i < k.ops.length
  · simp [hlt]
  · rw [List.getElem?_eq_none (Nat.not_lt.mp hlt)]
    rfl

/-- Adapting idle operators marks them. -/
theorem transformOps_run (h : ∀ o ∈ k.ops, o.Idle) :
    (List.range k.ops.length).forM (fun i => transformOp ⟨i⟩) k = .ok () k.markedAll := by
  have hends : Step.Ends (fun _ => False) (fun _ k' => k' = k.markedUpTo k.ops.length)
      ((List.range k.ops.length).forM (fun i => transformOp ⟨i⟩) k) := by
    refine (Step.Ends.forM (I := fun done k' => k' = k.markedUpTo done.length) ?_ ?_).mono ?_
    · simp [markedUpTo, List.zipIdx_map_fst]
    · rintro done i rest _ hmembers rfl
      have hi : (List.range k.ops.length)[done.length]? = some i := by
        rw [hmembers]
        simp
      obtain ⟨hlt, heq⟩ := List.getElem?_eq_some_iff.mp hi
      obtain rfl : done.length = i := by simpa using heq
      obtain ⟨o, ho⟩ : ∃ o, k.ops[done.length]? = some o :=
        ⟨_, List.getElem?_eq_getElem (by simpa using hlt)⟩
      rw [transformOp_run (o := o) (by rw [getElem?_markedUpTo, ho]; simp)
        (h o (List.mem_of_getElem? ho)), marked_markedUpTo]
      rw [Step.Ends, List.length_append, List.length_singleton]
    · rintro _ k' rfl
      rw [List.length_range]
  cases hrun : (List.range k.ops.length).forM (fun i => transformOp ⟨i⟩) k with
  | ok _ k' =>
      rw [hrun, markedUpTo_length] at hends
      rw [show k' = k.markedAll from hends]
  | error e k' =>
      rw [hrun] at hends
      exact hends.elim

/-- The graph `g` whose operators before `n` were adapted: these are marked, and
all that was added are transposes. -/
structure Resting (g : Graph) (n : Nat) (k : Graph) : Prop where
  length : g.ops.length ≤ k.ops.length
  done : ∀ {i o}, i < n → k.ops[i]? = some o → o.status = .transformed
  turns : ∀ {i o}, g.ops.length ≤ i → k.ops[i]? = some o →
    o.status = .parsed ∧ ∃ perm, o.kind = .transpose perm

/-- A change of operator `n` that adds transposes. -/
theorem Resting.grow {f : Operator → Operator} {more : List Operator} (h : Resting g n k)
    (hn : n < g.ops.length) (hops : k'.ops = k.ops.modify n f ++ more)
    (hmore : ∀ o ∈ more, o.status = .parsed ∧ ∃ perm, o.kind = .transpose perm) :
    Resting g n k' := by
  have hold : ∀ {i o}, i ≠ n → k'.ops[i]? = some o → k.ops[i]? = some o ∨ o ∈ more := by
    intro i o hi ho
    rw [hops, List.getElem?_append] at ho
    split at ho
    · rw [List.getElem?_modify_ne _ _ (Ne.symm hi)] at ho
      exact Or.inl ho
    · exact Or.inr (List.mem_of_getElem? ho)
  have hlength : k.ops.length ≤ k'.ops.length := by
    rw [hops, List.length_append, List.length_modify]
    exact Nat.le_add_right _ _
  refine ⟨h.length.trans hlength, fun {i o} hi ho => ?_, fun {i o} hi ho => ?_⟩
  · have hlt : i < (k.ops.modify n f).length := by
      have := h.length
      rw [List.length_modify]
      omega
    rw [hops, List.getElem?_append_left hlt,
      List.getElem?_modify_ne _ _ (Nat.ne_of_gt hi)] at ho
    exact h.done hi ho
  · exact (hold (by omega) ho).elim (h.turns hi) (hmore o)

theorem Resting.inputAdapted (h : Resting g n k) (hn : n < g.ops.length) (input : TensorId) :
    Resting g n (k.inputAdapted ⟨n⟩ input) := by
  unfold Graph.inputAdapted
  split
  · unfold inputPreserved
    split
    · exact h.grow hn (List.append_nil _).symm (by simp)
    · refine h.grow hn (inputSpliced_ops _ _ _ _ _) fun o ho => ?_
      rw [List.mem_singleton.mp ho]
      exact ⟨rfl, _, rfl⟩
  · exact h

theorem Resting.outputAdapted (h : Resting g n k) (hn : n < g.ops.length) (output : TensorId) :
    Resting g n (k.outputAdapted ⟨n⟩ output) := by
  unfold Graph.outputAdapted
  split
  · refine h.grow hn (outputPreserved_ops _ _ _ _ _) fun o ho => ?_
    rw [List.mem_singleton.mp ho]
    exact ⟨rfl, _, rfl⟩
  · exact h

theorem Resting.marked (h : Resting g n k) (hn : n < g.ops.length) :
    Resting g (n + 1) (k.marked n) := by
  have h' : Resting g n (k.marked n) := h.grow hn (List.append_nil _).symm (by simp)
  refine ⟨h'.length, fun {i o} hi ho => ?_, h'.turns⟩
  rcases Nat.lt_succ_iff_lt_or_eq.mp hi with hi | rfl
  · exact h'.done hi ho
  · rw [Graph.marked, List.getElem?_modify_eq] at ho
    obtain ⟨o', -, rfl⟩ := Option.map_eq_some_iff.mp ho
    rfl

theorem resting_adaptedUpTo (hn : n ≤ g.ops.length) : Resting g n (g.adaptedUpTo n) := by
  induction n with
  | zero =>
      refine ⟨Nat.le_refl _, fun hi => absurd hi (Nat.not_lt_zero _), fun {i o} hi ho => ?_⟩
      exact absurd (List.getElem?_eq_some_iff.mp ho).1 (Nat.not_lt.mpr hi)
  | succ n ih =>
      have hk := ih (Nat.le_of_succ_le hn)
      have ho := List.getElem?_eq_getElem (Nat.lt_of_lt_of_le hn hk.length)
      rw [Graph.adaptedUpTo, adaptedOp, ho]
      refine Resting.marked ?_ hn
      unfold operandsAdapted
      split
      · exact (hk.inputAdapted hn _).outputAdapted hn _
      · exact hk

/-- Nothing is left to do for the operators of an adapted graph. -/
theorem idle_adapted (ho : o ∈ g.adapted.ops) : o.Idle := by
  have hresting : Resting g g.ops.length g.adapted := resting_adaptedUpTo (Nat.le_refl _)
  obtain ⟨i, hi⟩ := List.getElem?_of_mem ho
  by_cases hlt : i < g.ops.length
  · exact Or.inl (hresting.done hlt hi)
  · exact Or.inr (hresting.turns (Nat.not_lt.mp hlt) hi)

/-! ## The second pass -/

/-- A graph whose operators are idle, adapted: the tensors that wait are moved. -/
def repeated (k : Graph) : Graph := k.movedPending.markedAll

/-- What a graph is, apart from how far its tensors and operators have come. -/
def ageless (k : Graph) : Graph :=
  { k.markedAll with tensors := k.tensors.map Tensor.ageless }

theorem transform_idle_ends (h : ∀ o ∈ k.ops, o.Idle) :
    Step.Ends (Fault.Broken (∃ t ∈ k.tensors, isPending t = true ∧ ¬t.Appliable))
      (fun _ k' => k' = k.repeated ∧ ∀ t ∈ k.tensors, isPending t = true → t.Appliable)
      (transform k) := by
  unfold transform
  rw [Step.run_bind_of_ok (Step.run_get k)]
  refine (moveWaiting_ends k).bind ?_
  rintro _ _ ⟨rfl, happly⟩
  rw [Step.run_bind_of_ok (Step.run_get _), transformOps_run (k := k.movedPending) h]
  exact ⟨rfl, happly⟩

/-- The second pass changes nothing if each tensor that waits rests. -/
theorem ageless_repeated_iff :
    k.repeated.ageless = k.ageless ↔ ∀ t ∈ k.tensors, isPending t = true → t.Rests := by
  have hops : k.repeated.ageless.ops = k.ageless.ops := by
    change (k.ops.map _).map _ = _
    rw [List.map_map]
    rfl
  have hiff : k.repeated.ageless = k.ageless ↔
      k.repeated.ageless.tensors = k.ageless.tensors := by
    refine ⟨congrArg Graph.tensors, fun htensors => ?_⟩
    calc k.repeated.ageless
        = { k.ageless with tensors := k.repeated.ageless.tensors
                           ops := k.repeated.ageless.ops } := rfl
      _ = k.ageless := by rw [htensors, hops]
  rw [hiff]
  change (k.tensors.map _).map _ = k.tensors.map _ ↔ _
  rw [List.map_map, List.map_inj_left]
  refine forall₂_congr fun t _ => ?_
  rw [Function.comp_apply]
  by_cases hp : isPending t = true
  · rw [if_pos hp, Tensor.ageless_moved_iff]
    exact ⟨fun h _ => h, fun h => h hp⟩
  · rw [if_neg hp]
    exact ⟨fun _ h => absurd h hp, fun _ => rfl⟩

section Idle

variable (h : ∀ o ∈ k.ops, o.Idle)

include h

theorem eq_repeated (hrun : transform k = .ok () k') :
    k' = k.repeated ∧ ∀ t ∈ k.tensors, isPending t = true → t.Appliable := by
  have hends := transform_idle_ends h
  rw [hrun] at hends
  exact hends

theorem transform_idle_succeeds_iff : (∃ k', transform k = .ok () k') ↔
    ∀ t ∈ k.tensors, isPending t = true → t.Appliable := by
  refine ⟨fun ⟨_, hrun⟩ => (eq_repeated h hrun).2, fun happly => ?_⟩
  have hends := transform_idle_ends h
  cases hrun : transform k with
  | ok _ k' => exact ⟨k', rfl⟩
  | error e k' =>
      rw [hrun] at hends
      obtain ⟨t, ht, hp, hnot⟩ := hends.2
      exact absurd (happly t ht hp) hnot

theorem transform_idle_idempotent_iff :
    (∃ k', transform k = .ok () k' ∧ k'.ageless = k.ageless) ↔
      ∀ t ∈ k.tensors, isPending t = true → t.Appliable ∧ t.Rests := by
  constructor
  · rintro ⟨_, hrun, hsame⟩ t ht hp
    obtain ⟨rfl, happly⟩ := eq_repeated h hrun
    exact ⟨happly t ht hp, ageless_repeated_iff.mp hsame t ht hp⟩
  · intro hall
    obtain ⟨k', hrun⟩ :=
      (transform_idle_succeeds_iff h).mpr fun t ht hp => (hall t ht hp).1
    refine ⟨k', hrun, ?_⟩
    rw [(eq_repeated h hrun).1]
    exact ageless_repeated_iff.mpr fun t ht hp => (hall t ht hp).2

end Idle

/-! ## Who waits -/

/-- The tensors that wait for a second pass are those that got their layout in
the first one. -/
theorem Intake.isPending_iff (h : Intake s layouts g) (hclash : ¬g.Clash)
    (hu : g.adapted.tensors[i]? = some u) :
    isPending u = true ↔
      u.layout.isSome = true ∧ ∀ t, g.tensors[i]? = some t → t.layout = none := by
  have hA := h.adapting_adapted hclash
  have hparsed := hA.sound.parsed u (List.mem_of_getElem? hu)
  rw [isPending_eq_true, ← Option.isSome_iff_exists, and_comm]
  refine and_congr_right fun hlayout => ⟨fun hstatus t ht => ?_,
    fun hnone => Status.eq_parsed hparsed ?_⟩
  · obtain ⟨v, hv, hc⟩ := hA.old ht
    obtain rfl := Option.some.inj (hu.symm.trans hv)
    cases hl : t.layout with
    | none => rfl
    | some l =>
        -- it was moved in the first pass
        have hmoved : u.status = .transformed := by
          rw [← u.bare_status, (hc.known (by rw [hl]; rfl)).1]
          exact Tensor.moved_status (t := t.bare) hl
        rw [hstatus] at hmoved
        cases hmoved
  · obtain hi | hi := Nat.lt_or_ge i g.tensors.length
    · have ht := List.getElem?_eq_getElem hi
      obtain ⟨v, hv, hc⟩ := hA.old ht
      obtain rfl := Option.some.inj (hu.symm.trans hv)
      exact (hc.opened (hnone _ ht)).1
    · exact hA.new hi hu

theorem Reshapes.rank_operand (hr : g.Reshapes n x y) (hclash : ¬g.Clash) (ht : t = x ∨ t = y)
    (hl : t.layout = some l) : t.rank = l.rank := by
  rcases ht with rfl | rfl
  · exact hr.rank_left hclash hl
  · exact hr.rank_right hclash hl

/-- The other form of a tensor waits.  It has no data, and its layout is the way
back. -/
theorem spliced_rests_iff {role : String} (hu : u.bare = t.spliced role l u.id)
    (hl : t.layout = some l) (hrank : t.rank = l.rank) :
    isPending u = true ∧ u.Appliable ∧ (u.Rests ↔ t.moved.shape = t.shape) := by
  have hlayout : u.layout = some l.inverse := by
    rw [← u.bare_layout, hu]
    rfl
  have hshape : u.shape = t.shape := by rw [← u.bare_shape, hu, shape_spliced role _ hl hrank]
  have hdata : u.data = none := by
    rw [← u.bare_data, hu]
    rfl
  have hurank : u.rank = l.inverse.rank := by
    rw [Tensor.rank, hshape, l.rank_inverse]
    exact hrank
  refine ⟨isPending_eq_true.mpr ⟨?_, _, hlayout⟩, fun l' hl' => Or.inr ⟨?_, fun b hb => ?_⟩, ?_⟩
  · rw [← u.bare_status, hu]
    rfl
  · rw [hlayout] at hl'
    cases hl'
    exact hurank
  · rw [hdata] at hb
    cases hb
  · have hnone : u.moved.data = none := by
      rw [← Option.not_isSome_iff_eq_none, Tensor.isSome_data_moved, hdata]
      simp
    rw [Tensor.Rests, hnone, hdata, and_iff_left rfl, Tensor.shape_moved hlayout hurank, hshape,
      Tensor.shape_moved hl hrank]
    exact l.permutedDims_inverse_eq_self hrank

section Unreserved

variable (h : Intake s layouts g) (hnames : s.Unreserved) (hclash : ¬g.Clash)

include h hnames hclash

/-- Where no name is reserved, a tensor that waits is the other form of an operand
of a reshape. -/
theorem Intake.spliced_of_isPending (hu : u ∈ g.adapted.tensors) (hp : isPending u = true) :
    ∃ n x y t l role, g.Reshapes n x y ∧ (t = x ∨ t = y) ∧ t.layout = some l ∧
      u.bare = t.spliced role l u.id := by
  have hP := h.populated (h.vacant hnames) hclash
  obtain ⟨i, hi⟩ := List.getElem?_of_mem hu
  obtain ⟨hlayout, hnone⟩ := (h.isPending_iff hclash hi).mp hp
  obtain hlt | hle := Nat.lt_or_ge i g.tensors.length
  · have ht := List.getElem?_eq_getElem hlt
    obtain ⟨v, hv, hbare⟩ := hP.base ht
    obtain rfl := Option.some.inj (hi.symm.trans hv)
    have : u.layout = none := by
      rw [← u.bare_layout, hbare, Tensor.moved_layout, Tensor.bare_layout, hnone _ ht]
    rw [this] at hlayout
    cases hlayout
  · rcases (hP.new hle hi).2 with ⟨n, x, y, l, id, -, hr, hl, hbare⟩ |
      ⟨n, x, y, l, id, -, hr, hl, hbare⟩
    · obtain rfl : u.id = id := congrArg Tensor.id hbare
      exact ⟨n, x, y, x, l, _, hr, Or.inl rfl, hl, hbare⟩
    · obtain rfl : u.id = id := congrArg Tensor.id hbare
      exact ⟨n, x, y, y, l, _, hr, Or.inr rfl, hl, hbare⟩

/-- An operand of a reshape that has a layout has another form. -/
theorem Intake.exists_spliced (hr : g.Reshapes n x y) (ht : t = x ∨ t = y)
    (hl : t.layout = some l) :
    ∃ u ∈ g.adapted.tensors, ∃ role, u.bare = t.spliced role l u.id := by
  obtain ⟨o, input, output, hat⟩ := hr.reshapeAt
  have hlt := (List.getElem?_eq_some_iff.mp hat.op).1
  rcases ht with rfl | rfl
  · obtain ⟨u, hu, hname⟩ := (h.populated (h.vacant hnames) hclash).turned hlt hr (by rw [hl]; rfl)
    exact ⟨u, hu, _, h.bare_eq_turned hnames hclash hu hr.mem_left hname hl⟩
  · obtain ⟨o', -, hretouched⟩ := (h.inserting_adapted (h.vacant hnames) hclash).ops hat.op
    cases hretouched.written hlt with
    | kept hno => exact absurd ⟨o, input, x, hat, hl⟩ (hno output t l)
    | turned hwrites hmoved =>
        obtain ⟨_, _, _, hat', -⟩ := hwrites
        obtain rfl := (hr.unique hat'.reshapes).2
        obtain ⟨u, hu, hname⟩ := Option.map_eq_some_iff.mp hmoved
        exact ⟨u, List.mem_of_getElem? hu, _,
          h.bare_eq_written hnames hclash (List.mem_of_getElem? hu) hr.mem_right hname hl⟩

/-- So a second pass goes through. -/
theorem Intake.appliable_of_isPending (hu : u ∈ g.adapted.tensors) (hp : isPending u = true) :
    u.Appliable := by
  obtain ⟨n, x, y, t, l, role, hr, ht, hl, hbare⟩ := h.spliced_of_isPending hnames hclash hu hp
  exact (spliced_rests_iff hbare hl (hr.rank_operand hclash ht hl)).2.1

/-- It changes nothing if no layout changes the shape of an operand. -/
theorem Intake.rests_iff :
    (∀ u ∈ g.adapted.tensors, isPending u = true → u.Rests) ↔
      ∀ n x y, g.Reshapes n x y → x.moved.shape = x.shape ∧ y.moved.shape = y.shape := by
  constructor
  · intro hall n x y hr
    have hshape : ∀ t, t = x ∨ t = y → t.moved.shape = t.shape := fun t ht => by
      cases hl : t.layout with
      | none => exact (Tensor.rests_of_layout_none hl).1
      | some l =>
          obtain ⟨u, hu, role, hbare⟩ := h.exists_spliced hnames hclash hr ht hl
          obtain ⟨hp, -, hiff⟩ := spliced_rests_iff hbare hl (hr.rank_operand hclash ht hl)
          exact hiff.mp (hall u hu hp)
    exact ⟨hshape x (Or.inl rfl), hshape y (Or.inr rfl)⟩
  · intro hall u hu hp
    obtain ⟨n, x, y, t, l, role, hr, ht, hl, hbare⟩ :=
      h.spliced_of_isPending hnames hclash hu hp
    refine (spliced_rests_iff hbare hl (hr.rank_operand hclash ht hl)).2.2.mpr ?_
    rcases ht with rfl | rfl
    · exact (hall n _ y hr).1
    · exact (hall n x _ hr).2

end Unreserved

/-- What a second pass does to a graph that was read as `g` and adapted to
`g'`. -/
structure Repeats (s : Scope) (g g' : Graph) : Prop where
  /-- It takes up the tensors that got their layout in the first pass. -/
  pending : ∀ {i : Nat} {t : Tensor}, g'.tensors[i]? = some t → (isPending t = true ↔
    t.layout.isSome = true ∧ ∀ b, g.tensors[i]? = some b → b.layout = none)
  /-- It goes through if their layouts can be applied. -/
  succeeds_iff : (∃ g'', transform g' = .ok () g'') ↔
    ∀ t ∈ g'.tensors, isPending t = true → t.Appliable
  /-- Then it moves them, and has nothing to do for the operators. -/
  result : ∀ g'', transform g' = .ok () g'' → g'' = g'.repeated
  /-- It changes nothing if they are as they would be moved. -/
  idempotent_iff : (∃ g'', transform g' = .ok () g'' ∧ g''.ageless = g'.ageless) ↔
    ∀ t ∈ g'.tensors, isPending t = true → t.Appliable ∧ t.Rests
  /-- Where no name is reserved, it goes through. -/
  succeeds : s.Unreserved → ∃ g'', transform g' = .ok () g''
  /-- It changes nothing then if no layout changes the shape of an operand of a
  reshape. -/
  idempotent_iff_shapes : s.Unreserved →
    ((∃ g'', transform g' = .ok () g'' ∧ g''.ageless = g'.ageless) ↔
      ∀ n x y, g.Reshapes n x y → x.moved.shape = x.shape ∧ y.moved.shape = y.shape)

/-- A second pass moves the tensors that were made by the first one, and nothing
else.  Whether it changes the graph is seen from the shapes of what the reshapes
read and write. -/
theorem transform_repeats (h : IsIntake s layouts g) (hrun : transform g = .ok () g') :
    Repeats s g g' := by
  have hends := h.intake.transform_ends
  rw [hrun] at hends
  obtain ⟨hclash, rfl⟩ := hends
  have hin := h.intake
  have hidle : ∀ o ∈ g.adapted.ops, o.Idle := fun o ho => idle_adapted ho
  refine ⟨hin.isPending_iff hclash, transform_idle_succeeds_iff hidle,
    fun g'' hrun' => (eq_repeated hidle hrun').1, transform_idle_idempotent_iff hidle,
    fun hnames => ?_, fun hnames => ?_⟩
  · exact (transform_idle_succeeds_iff hidle).mpr fun u hu hp =>
      hin.appliable_of_isPending hnames hclash hu hp
  · rw [transform_idle_idempotent_iff hidle, ← hin.rests_iff hnames hclash]
    exact forall₃_congr fun u hu hp =>
      and_iff_right (hin.appliable_of_isPending hnames hclash hu hp)

/-- Two tensors are made for the reshapes of the scope with a shared input, and a
second pass turns the shapes of both. -/
theorem transform_repeats_sharedInput : ∃ g g',
    IsIntake sharedInputScope sharedInputLayouts g ∧ transform g = .ok () g' ∧
      Repeats sharedInputScope g g' ∧
      (g'.tensors.filter isPending).map Tensor.name =
        ["TFLITE2ONNX_Transposed_x", "TFLITE2ONNX_ToTranspose_y"] := by
  obtain ⟨g, g', hg, hrun, hseen⟩ := exists_of_adaptedIntake? sharedInputScope sharedInputLayouts
    (fun r => decide ((r.2.tensors.filter isPending).map Tensor.name =
      ["TFLITE2ONNX_Transposed_x", "TFLITE2ONNX_ToTranspose_y"])) (by decide +kernel)
  exact ⟨g, g', hg, hrun, transform_repeats hg hrun, of_decide_eq_true hseen⟩

/-- A reshape whose input has a layout. -/
def turnedInputSubgraph : Source.Subgraph where
  name := none
  tensors := [⟨"x", [1, 2], .float32, 0, none⟩, ⟨"y", [2], .float32, 0, none⟩]
  operators := [⟨0, [0], [1], .reshape [2]⟩]
  inputs := [0]
  outputs := [1]

def turnedInputScope : Scope where
  model := ⟨3, none, [.reshape], [[]], [turnedInputSubgraph]⟩
  subgraph := turnedInputSubgraph
  strict := true

def turnedInputLayouts : SortedMap ExplicitLayout := .insert .empty "x" ⟨"AB", "BA"⟩

/-- What was made to be in source order is in target order after a second
pass. -/
theorem transform_transform_ne : ∃ g g' g'',
    IsIntake turnedInputScope turnedInputLayouts g ∧ transform g = .ok () g' ∧
      transform g' = .ok () g'' ∧
      g'.tensors[3]?.map (fun t => (t.name, t.shape)) =
        some ("TFLITE2ONNX_Transposed_x", [1, 2]) ∧
      g''.tensors[3]?.map (fun t => (t.name, t.shape)) =
        some ("TFLITE2ONNX_Transposed_x", [2, 1]) ∧
      g''.ageless ≠ g'.ageless := by
  obtain ⟨g, g', hg, hrun, hseen⟩ := exists_of_adaptedIntake? turnedInputScope turnedInputLayouts
    (fun r => (state? (transform r.2)).any fun g'' : Graph => decide (
      r.2.tensors[3]?.map (fun t : Tensor => (t.name, t.shape)) =
        some ("TFLITE2ONNX_Transposed_x", [1, 2]) ∧
      g''.tensors[3]?.map (fun t : Tensor => (t.name, t.shape)) =
        some ("TFLITE2ONNX_Transposed_x", [2, 1]))) (by decide +kernel)
  obtain ⟨g'', hsome, hshapes⟩ := (Option.any_eq_true _ _).mp hseen
  obtain ⟨hfirst, hsecond⟩ := of_decide_eq_true hshapes
  refine ⟨g, g', g'', hg, hrun, state?_eq_some hsome, hfirst, hsecond, fun hsame => ?_⟩
  have hshape : ∀ k : Graph, (k.ageless.tensors[3]?.map fun t => (t.name, t.shape)) =
      k.tensors[3]?.map fun t => (t.name, t.shape) := fun k => by
    change ((k.tensors.map Tensor.ageless)[3]?.map _) = _
    rw [List.getElem?_map, Option.map_map]
    rfl
  rw [← hshape, ← hsame, hshape, hsecond] at hfirst
  exact absurd hfirst (by decide)

end Graph

end Relayout
