/-
# Shared transposes

All readers of one tensor share one transpose, which stands before the reader
that asked for it first.  `Turned` describes the graph after any requests, in
any order: an operator that asked reads the turned tensor in its first slot, the
first to ask for a tensor has the transpose before it, and nothing else changed.
That the requests are those of distinct operators of the source is what keeps
the description flat: no transpose is asked to turn its own input back.
-/
import Relayout.Proofs.Graph.Edges
import Relayout.Proofs.Graph.Lowered

namespace Relayout.Graph

variable {s : Scope} {layouts : SortedMap ExplicitLayout} {g k k' : Graph} {i j : Nat}
  {x y moved : TensorId} {turn : OpId} {o : Operator} {t : Tensor} {l : Layout}
  {done requests : List Nat}

/-! ## Requests -/

/-- What an operator of the source reads first. -/
def firstInput? (g : Graph) (i : Nat) : Option TensorId :=
  g.ops[i]?.bind fun o => o.inputs[0]?

/-- Who is the first of some readers to ask for what reader `i` reads. -/
def firstAsker? (g : Graph) (requests : List Nat) (i : Nat) : Option Nat :=
  requests.find? fun j => g.firstInput? j = g.firstInput? i

/-- Operator `i` can ask for its first input in source order: the input has a
layout. -/
structure Asks (g : Graph) (i : Nat) (o : Operator) (x : TensorId) (t : Tensor) (l : Layout) :
    Prop where
  op : g.ops[i]? = some o
  reads : o.inputs[0]? = some x
  source : g.tensors[x.index]? = some t
  layout : t.layout = some l

namespace Asks

variable (h : g.Asks i o x t l)

include h

theorem firstInput?_eq : g.firstInput? i = some x := by
  rw [firstInput?, h.op, Option.bind_some, h.reads]

theorem lt : i < g.ops.length := (List.getElem?_eq_some_iff.mp h.op).1

theorem operand : g.Operand .inputs ⟨i⟩ x :=
  (operand_iff (p := ⟨i⟩) h.op).mpr (List.mem_of_getElem? h.reads)

theorem unique {o' : Operator} {y : TensorId} {u : Tensor} {m : Layout} (h' : g.Asks i o' y u m) :
    o' = o ∧ y = x ∧ u = t ∧ m = l := by
  obtain rfl := Option.some.inj (h.op.symm.trans h'.op)
  obtain rfl := Option.some.inj (h.reads.symm.trans h'.reads)
  obtain rfl := Option.some.inj (h.source.symm.trans h'.source)
  exact ⟨rfl, rfl, rfl, Option.some.inj (h'.layout.symm.trans h.layout)⟩

end Asks

/-- In `k`, the transpose `turn` makes `moved` from `x`.  Both are younger than
`g`. -/
structure Turn (g k : Graph) (x : TensorId) (name : String) (turn : OpId) (moved : TensorId) :
    Prop where
  later : g.ops.length ≤ turn.index
  beyond : g.tensors.length ≤ moved.index
  named : k.nameOf? moved = some name
  op : ∃ q, k.ops[turn.index]? = some q ∧ q.inputs = [x] ∧ q.outputs = [moved] ∧ q.pre = [] ∧
    q.post = []
  sole : ∀ p, k.Edge .outputs p moved → p = turn

/-- The graph `g` after some requests: `k` has no other tensors and operators
than those of `g`, in their old places, and transposes that were asked for. -/
structure Turned (g : Graph) (done : List Nat) (k : Graph) : Prop where
  named : k.Named
  writing : ∀ p x, k.Edge .outputs p x ↔ k.Operand .outputs p x
  grows : g.tensors.length ≤ k.tensors.length ∧ g.ops.length ≤ k.ops.length
  tensors : ∀ {j : Nat} {t : Tensor}, g.tensors[j]? = some t →
    ∃ u, k.tensors[j]? = some u ∧ u.bare = t.bare ∧
      ∀ i, i ∉ done → ⟨i⟩ ∈ t.consumers → ⟨i⟩ ∈ u.consumers
  moved : ∀ {j : Nat}, g.tensors.length ≤ j → j < k.tensors.length →
    ∃ i ∈ done, ∃ o x t l turn, g.Asks i o x t l ∧
      g.Turn k x (synthesizedName "Transposed" t.name) turn ⟨j⟩
  waiting : ∀ {i : Nat} {o : Operator}, g.ops[i]? = some o → i ∉ done → k.ops[i]? = some o
  asked : ∀ {i : Nat} {o : Operator} {x : TensorId} {t : Tensor} {l : Layout}, i ∈ done →
    g.Asks i o x t l → ∃ turn moved o',
      g.Turn k x (synthesizedName "Transposed" t.name) turn moved ∧ k.ops[i]? = some o' ∧
        o'.inputs = o.inputs.set 0 moved ∧ o'.outputs = o.outputs ∧
        o'.pre = (if g.firstAsker? done i = some i then [turn] else []) ∧ o'.post = []
  turns : ∀ {j : Nat}, g.ops.length ≤ j → j < k.ops.length →
    ∃ i ∈ done, g.firstAsker? done i = some i ∧ ∃ o x t l moved, g.Asks i o x t l ∧
      g.Turn k x (synthesizedName "Transposed" t.name) ⟨j⟩ moved

theorem firstAsker?_append (h : i ∈ done) (j : Nat) :
    g.firstAsker? (done ++ [j]) i = g.firstAsker? done i := by
  have hsome : (g.firstAsker? done i).isSome = true :=
    List.find?_isSome.mpr ⟨i, h, decide_eq_true rfl⟩
  rw [firstAsker?, List.find?_append, ← firstAsker?, Option.or_of_isSome hsome]

theorem Turned.edge_turn {name : String} (h : Turned g done k)
    (hturn : g.Turn k x name turn moved) : k.Edge .outputs turn moved := by
  obtain ⟨q, hq, -, houts, -⟩ := hturn.op
  refine (h.writing _ _).mpr ((operand_iff hq).mpr ?_)
  rw [Operator.operands, houts]
  exact List.mem_singleton_self _

/-- What was turned is found under its name. -/
theorem Turned.producerNamed?_eq {name : String} (h : Turned g done k)
    (hturn : g.Turn k x name turn moved) : producerNamed? k name = some (moved, turn) := by
  obtain ⟨u, hu, rfl⟩ := Option.map_eq_some_iff.mp hturn.named
  have hiff : ∀ p, k.Edge .outputs p moved ↔ p ∈ u.producers := fun p => edge_iff hu
  have hmem := (hiff turn).mp (h.edge_turn hturn)
  refine producerNamed?_eq_some.mpr ⟨u, lookup?_of_name h.named hu, hu, ?_⟩
  cases hproducers : u.producers with
  | nil =>
      rw [hproducers] at hmem
      cases hmem
  | cons p rest =>
      have hp : p ∈ u.producers := hproducers ▸ List.mem_cons_self
      rw [List.head?_cons, hturn.sole p ((hiff p).mpr hp)]

/-- A tensor was turned once. -/
theorem Turned.turn_unique (h : Turned g done k) {name : String} {turn' : OpId}
    {moved' : TensorId} (hturn : g.Turn k x name turn moved)
    (hturn' : g.Turn k y name turn' moved') : turn' = turn ∧ moved' = moved := by
  have heq := (h.producerNamed?_eq hturn).symm.trans (h.producerNamed?_eq hturn')
  cases heq
  exact ⟨rfl, rfl⟩

/-- Only what was asked for has a name that a request makes up. -/
theorem Turned.exists_of_lookup? (h : Turned g done k) (hnamed : g.Named) (hclear : g.Clear)
    (ht : g.tensors[x.index]? = some t) {e : TensorId}
    (he : k.lookup? (synthesizedName "Transposed" t.name) = some e) :
    ∃ j ∈ done, ∃ o x' t' l', g.Asks j o x' t' l' ∧ x' = x := by
  obtain ⟨u, hu, hname⟩ := lookup?_eq_some h.named he
  have hlt := (List.getElem?_eq_some_iff.mp hu).1
  have hbeyond : g.tensors.length ≤ e.index := by
    refine Nat.not_lt.mp fun hold => ?_
    obtain ⟨u', hu', hbare, -⟩ := h.tensors (List.getElem?_eq_getElem hold)
    obtain rfl := Option.some.inj (hu.symm.trans hu')
    have hsame : u.name = (g.tensors[e.index]).name := by simpa using congrArg Tensor.name hbare
    exact (hclear _ (List.getElem_mem hold) t.name).1 (hsame.symm.trans hname)
  obtain ⟨j, hj, o, x', t', l', turn, hasks, hturn⟩ := h.moved hbeyond hlt
  have hsubject : t'.name = t.name := by
    have hnamed := hturn.named
    rw [nameOf?, hu, Option.map_some, hname] at hnamed
    exact (synthesizedName_injective (Option.some.inj hnamed)).symm
  exact ⟨j, hj, o, x', t', l', hasks,
    TensorId.index_inj.mp (hnamed.eq_of_name hasks.source ht hsubject)⟩

/-! ## One request -/

/-- What a request changes: operator `i` is led from `x` to `moved`, which
`turn` makes of it, and `pre` is put before the operator. -/
structure Led (g k : Graph) (i : Nat) (x : TensorId) (name : String) (turn : OpId)
    (moved : TensorId) (pre : List OpId) (k' : Graph) : Prop where
  named : k'.Named
  writing : ∀ p x, k'.Edge .outputs p x ↔ k'.Operand .outputs p x
  grows : k.tensors.length ≤ k'.tensors.length ∧ k.ops.length ≤ k'.ops.length
  keeps : Extends i k k'
  own : ∀ {o : Operator}, k.ops[i]? = some o → ∃ o', k'.ops[i]? = some o' ∧
    o'.inputs = o.inputs.set 0 moved ∧ o'.outputs = o.outputs ∧ o'.pre = o.pre ++ pre ∧
    o'.post = o.post
  tensors : ∀ {j : Nat} {u : Tensor}, k.tensors[j]? = some u → ∃ u', k'.tensors[j]? = some u' ∧
    u'.bare = u.bare ∧ ∀ p ∈ u.consumers, p ≠ ⟨i⟩ → p ∈ u'.consumers
  turned : g.Turn k' x name turn moved
  old : ∀ p (y : TensorId), y.index < k.tensors.length → k'.Edge .outputs p y → k.Edge .outputs p y
  beyond : ∀ {j : Nat}, k.tensors.length ≤ j → j < k'.tensors.length → j = moved.index
  later : ∀ {j : Nat}, k.ops.length ≤ j → j < k'.ops.length → j = turn.index ∧ pre = [turn]

/-- What was turned before stays. -/
theorem Turn.led {name name' : String} {pre : List OpId} {turn' : OpId} {moved' : TensorId}
    (hturn : g.Turn k x name turn moved) (h : Led g k i y name' turn' moved' pre k')
    (hi : i < g.ops.length) : g.Turn k' x name turn moved where
  later := hturn.later
  beyond := hturn.beyond
  named := h.keeps.keeps _ _ hturn.named
  op := by
    obtain ⟨q, hq, hsame⟩ := hturn.op
    exact ⟨q, h.keeps.ops (Nat.ne_of_gt (Nat.lt_of_lt_of_le hi hturn.later)) hq, hsame⟩
  sole := fun p hp => by
    obtain ⟨u, hu, -⟩ := Option.map_eq_some_iff.mp hturn.named
    exact hturn.sole p (h.old p moved (List.getElem?_eq_some_iff.mp hu).1 hp)

theorem Turned.led (h : Turned g done k) (hi : i ∉ done) (ha : g.Asks i o x t l)
    (hposts : o.pre = [] ∧ o.post = [])
    {pre : List OpId} (hled : Led g k i x (synthesizedName "Transposed" t.name) turn moved pre k')
    (hpre : pre = if g.firstAsker? (done ++ [i]) i = some i then [turn] else []) :
    Turned g (done ++ [i]) k' where
  named := hled.named
  writing := hled.writing
  grows := ⟨Nat.le_trans h.grows.1 hled.grows.1, Nat.le_trans h.grows.2 hled.grows.2⟩
  tensors := fun {j t} ht => by
    obtain ⟨u, hu, hbare, hconsumers⟩ := h.tensors ht
    obtain ⟨u', hu', hbare', hconsumers'⟩ := hled.tensors hu
    refine ⟨u', hu', hbare'.trans hbare, fun p hp hmem => ?_⟩
    rw [List.mem_append, List.mem_singleton, not_or] at hp
    exact hconsumers' _ (hconsumers p hp.1 hmem) fun heq => hp.2 (OpId.mk.inj heq)
  moved := fun {j} hj hlt => by
    by_cases hold : j < k.tensors.length
    · obtain ⟨i', hi', o', x', t', l', turn', hasks, hturn⟩ := h.moved hj hold
      exact ⟨i', List.mem_append_left _ hi', o', x', t', l', turn', hasks, hturn.led hled ha.lt⟩
    · obtain rfl := hled.beyond (Nat.not_lt.mp hold) hlt
      exact ⟨i, List.mem_append_right _ (List.mem_singleton_self _), o, x, t, l, turn, ha,
        hled.turned⟩
  waiting := fun {j q} hq hj => by
    rw [List.mem_append, List.mem_singleton, not_or] at hj
    exact hled.keeps.ops hj.2 (h.waiting hq hj.1)
  asked := fun {j q y u m} hj hasks => by
    rcases List.mem_append.mp hj with hj | hj
    · obtain ⟨turn', moved', o', hturn, ho', hins, houts, hpre, hpost⟩ := h.asked hj hasks
      have hne : j ≠ i := fun heq => hi (heq ▸ hj)
      refine ⟨turn', moved', o', hturn.led hled ha.lt, hled.keeps.ops hne ho', hins, houts, ?_,
        hpost⟩
      rw [firstAsker?_append hj, hpre]
    · obtain rfl := List.mem_singleton.mp hj
      obtain ⟨rfl, rfl, rfl, rfl⟩ := ha.unique hasks
      obtain ⟨o', ho', hins, houts, hpre', hpost⟩ := hled.own (h.waiting ha.op hi)
      rw [hposts.1, List.nil_append, hpre] at hpre'
      exact ⟨turn, moved, o', hled.turned, ho', hins, houts, hpre', hpost.trans hposts.2⟩
  turns := fun {j} hj hlt => by
    by_cases hold : j < k.ops.length
    · obtain ⟨i', hi', hfirst, o', x', t', l', moved', hasks, hturn⟩ := h.turns hj hold
      exact ⟨i', List.mem_append_left _ hi', by rwa [firstAsker?_append hi'], o', x', t', l',
        moved', hasks, hturn.led hled ha.lt⟩
    · obtain ⟨rfl, hone⟩ := hled.later (Nat.not_lt.mp hold) hlt
      refine ⟨i, List.mem_append_right _ (List.mem_singleton_self _), ?_, o, x, t, l, moved, ha,
        hled.turned⟩
      by_contra hfirst
      rw [if_neg hfirst, hone] at hpre
      cases hpre

/-- A request for what was turned already. -/
theorem Turned.led_readingInstead {name : String} (h : Turned g done k) (ha : g.Asks i o x t l)
    (hturn : g.Turn k x name turn moved) :
    Led g k i x name turn moved [] (k.readingInstead ⟨i⟩ x moved) := by
  have hends := ends_readingInstead_outputs k ⟨i⟩ x moved
  have hedge : ∀ p y, (k.readingInstead ⟨i⟩ x moved).Edge .outputs p y ↔ k.Edge .outputs p y :=
    fun p y => by rw [Edge, hends, ← Edge]
  have hkeeps : Extends i k (k.readingInstead ⟨i⟩ x moved) :=
    .of_modify [] (keeps_readingInstead k ⟨i⟩ x moved) (List.append_nil _).symm
  have hlengths : (k.readingInstead ⟨i⟩ x moved).tensors.length = k.tensors.length ∧
      (k.readingInstead ⟨i⟩ x moved).ops.length = k.ops.length := by
    simp [readingInstead]
  refine ⟨?_, fun p y => ?_, ⟨Nat.le_of_eq hlengths.1.symm, Nat.le_of_eq hlengths.2.symm⟩, hkeeps,
    fun {q} hq => ?_, fun {j u} hu => ?_, ⟨hturn.later, hturn.beyond, hkeeps.keeps _ _ hturn.named,
    ?_, fun p hp => hturn.sole p ((hedge p moved).mp hp)⟩, fun p y _ => (hedge p y).mp,
    fun hle hlt => ?_, fun hle hlt => ?_⟩
  · exact h.named.readingInstead ⟨i⟩ x moved
  · rw [hedge, h.writing]
    exact (operand_modify_of_eq (f := (·.withInput moved)) rfl fun _ => rfl).symm
  · have hq : k.ops[OpId.index ⟨i⟩]? = some q := hq
    exact ⟨_, ops_readingInstead hq x moved, rfl, rfl, (List.append_nil _).symm, rfl⟩
  · obtain ⟨u', hu', hr, -⟩ := getElem?_readingInstead ⟨i⟩ x moved hu ⟨i⟩
    exact ⟨u', hu', hr.bare, fun p hp hne => hr.consumer p hp fun _ => hne⟩
  · obtain ⟨q, hq, hsame⟩ := hturn.op
    exact ⟨q, hkeeps.ops (Nat.ne_of_gt (Nat.lt_of_lt_of_le ha.lt hturn.later)) hq, hsame⟩
  · rw [hlengths.1] at hlt
    exact absurd hlt (Nat.not_lt.mpr hle)
  · rw [hlengths.2] at hlt
    exact absurd hlt (Nat.not_lt.mpr hle)

theorem edge_inputSpliced (hk : k.Named) (op : OpId) (operand : TensorId) (t : Tensor)
    (l : Layout) (p : OpId) (y : TensorId) : (k.inputSpliced op operand t l).Edge .outputs p y ↔
      k.Edge .outputs p y ∨
        p = ⟨k.ops.length⟩ ∧ y = (k.withDerived t (synthesizedName "Transposed" t.name)).1 := by
  have hmoved := withDerived_lt hk t (synthesizedName "Transposed" t.name)
  rw [Edge, inputSpliced, ends_transposedBefore_outputs,
    Listed.modify_attach (by simpa [ends, completing] using hmoved), ← Edge, edge_completed,
    completing, withDerived_ops, TensorId.index_inj]

/-- A first request. -/
theorem Turned.led_inputSpliced {u : Tensor} (h : Turned g done k) (ha : g.Asks i o x t l)
    (hfree : k.lookup? (synthesizedName "Transposed" u.name) = none) :
    Led g k i x (synthesizedName "Transposed" u.name) ⟨k.ops.length⟩ ⟨k.tensors.length⟩
      [⟨k.ops.length⟩] (k.inputSpliced ⟨i⟩ x u l) := by
  have hderived : (k.withDerived u (synthesizedName "Transposed" u.name)).1 =
      ⟨k.tensors.length⟩ := by rw [withDerived, hfree]
  have hedge := edge_inputSpliced h.named ⟨i⟩ x u l
  have hops := inputSpliced_ops k ⟨i⟩ x u l
  have hname := nameOf?_inputSpliced h.named ⟨i⟩ x u l
  rw [hderived] at hedge hops hname
  have hstep := inputSpliced_step k ⟨i⟩ x u l
  have hkeeps : Extends i k (k.inputSpliced ⟨i⟩ x u l) :=
    .of_modify _ (keeps_inputSpliced k ⟨i⟩ x u l) hops
  have hold : ∀ p (y : TensorId), y.index < k.tensors.length →
      (k.inputSpliced ⟨i⟩ x u l).Edge .outputs p y → k.Edge .outputs p y := by
    intro p y hy hp
    refine ((hedge p y).mp hp).resolve_right ?_
    rintro ⟨-, rfl⟩
    exact Nat.lt_irrefl _ hy
  refine ⟨hstep.named h.named, fun p y => ?_, ⟨?_, ?_⟩, hkeeps, fun {q} hq => ?_,
    fun {j v} hv => ?_, ⟨h.grows.2, h.grows.1, hname, ?_, fun p hp => ?_⟩, hold,
    fun {j} hle hlt => ?_, fun {j} hle hlt => ?_⟩
  · rw [hedge, h.writing, operand_spliced_of_eq hops fun _ => rfl]
    exact or_congr_right (and_congr_right fun _ => List.mem_singleton.symm)
  · obtain ⟨v, hv, -⟩ := Option.map_eq_some_iff.mp hname
    exact Nat.le_of_lt (List.getElem?_eq_some_iff.mp hv).1
  · rw [hops, List.length_append, List.length_modify]
    exact Nat.le_add_right _ _
  · have hown := (ops_inputSpliced (show k.ops[OpId.index ⟨i⟩]? = some _ from hq) x u l).1
    rw [hderived] at hown
    exact ⟨_, hown, rfl, rfl, rfl, rfl⟩
  · obtain ⟨v', hv', hr, -⟩ := hstep.other hv (by simp [hfree])
    exact ⟨v', hv', hr.bare, fun p hp hne => hr.consumer p hp fun _ => hne⟩
  · have hop : k.ops[OpId.index ⟨i⟩]? = some _ :=
      List.getElem?_eq_getElem (Nat.lt_of_lt_of_le ha.lt h.grows.2)
    have hturn := (ops_inputSpliced hop x u l).2
    rw [hderived] at hturn
    exact ⟨_, hturn, rfl, rfl, rfl, rfl⟩
  · refine (((hedge p _).mp hp).resolve_left fun hp => ?_).1
    have hlt := hp.lt
    rw [ends, List.length_map] at hlt
    exact Nat.lt_irrefl _ hlt
  · exact (hstep.new hle (List.getElem?_eq_getElem hlt)).2.1
  · rw [hops, List.length_append, List.length_modify, List.length_singleton] at hlt
    exact ⟨Nat.le_antisymm (Nat.le_of_lt_succ hlt) hle, rfl⟩

/-- What an operator asks for was turned already, or its name is free. -/
theorem Turned.shared_or_free (h : Turned g done k) (hg : Intake s layouts g)
    (hnames : s.Unreserved) (hdone : ∀ j ∈ done, ∃ o x t l, g.Asks j o x t l)
    (ha : g.Asks i o x t l) :
    (∃ turn moved, g.Turn k x (synthesizedName "Transposed" t.name) turn moved ∧
        ∃ j ∈ done, g.firstInput? j = g.firstInput? i) ∨
      k.lookup? (synthesizedName "Transposed" t.name) = none ∧
        ∀ j ∈ done, g.firstInput? j ≠ g.firstInput? i := by
  rw [ha.firstInput?_eq]
  by_cases hshared : ∃ j ∈ done, g.firstInput? j = some x
  · obtain ⟨j, hj, hreads⟩ := hshared
    obtain ⟨o', x', t', l', hasks⟩ := hdone j hj
    obtain rfl := Option.some.inj (hasks.firstInput?_eq.symm.trans hreads)
    obtain rfl := Option.some.inj (hasks.source.symm.trans ha.source)
    obtain ⟨turn, moved, -, hturn, -⟩ := h.asked hj hasks
    exact Or.inl ⟨turn, moved, hturn, j, hj, hreads⟩
  · refine Or.inr ⟨Option.eq_none_iff_forall_ne_some.mpr fun e he => hshared ?_,
      fun j hj hreads => hshared ⟨j, hj, hreads⟩⟩
    obtain ⟨j, hj, o', x', t', l', hasks, rfl⟩ :=
      h.exists_of_lookup? hg.named (hg.clear hnames) ha.source he
    exact ⟨j, hj, hasks.firstInput?_eq⟩

theorem firstAsker?_concat_ne (hi : i ∉ done) (hj : j ∈ done)
    (hsame : g.firstInput? j = g.firstInput? i) : g.firstAsker? (done ++ [i]) i ≠ some i := by
  intro hfirst
  have hsome : (g.firstAsker? done i).isSome = true :=
    List.find?_isSome.mpr ⟨j, hj, decide_eq_true hsame⟩
  rw [firstAsker?, List.find?_append, ← firstAsker?, Option.or_of_isSome hsome] at hfirst
  exact hi (List.mem_of_find?_eq_some hfirst)

theorem firstAsker?_concat_self (hnone : ∀ j ∈ done, g.firstInput? j ≠ g.firstInput? i) :
    g.firstAsker? (done ++ [i]) i = some i := by
  rw [firstAsker?, List.find?_append, List.find?_eq_none.mpr, Option.none_or]
  · simp
  · simpa using hnone

/-- A request stops if the tensor has another rank than its layout; otherwise it
leaves what `Turned` describes. -/
theorem Turned.request_ends (h : Turned g done k) (hg : Intake s layouts g)
    (hnames : s.Unreserved) (hdone : ∀ j ∈ done, ∃ o x t l, g.Asks j o x t l) (hi : i ∉ done)
    (ha : g.Asks i o x t l) :
    Step.Ends (Fault.Broken (t.rank ≠ l.rank))
      (fun _ k' => t.rank = l.rank ∧ Turned g (done ++ [i]) k') (preserveInput ⟨i⟩ 0 k) := by
  obtain ⟨decl, c, -, -, hstands⟩ := hg.stands_at ha.op
  obtain ⟨u, hu, hbare, hconsumers⟩ := h.tensors ha.source
  have hname : u.name = t.name := by simpa using congrArg Tensor.name hbare
  have hlayout : u.layout = some l := by
    have : u.layout = t.layout := by simpa using congrArg Tensor.layout hbare
    rw [this, ha.layout]
  have hrank : u.rank = t.rank := congrArg List.length (by simpa using congrArg Tensor.shape hbare)
  have hreader : ⟨i⟩ ∈ t.consumers :=
    (edge_iff ha.source).mp ((hg.taken.wired.edge_iff_operand .inputs _ _).mpr ha.operand)
  have hproducers : ∀ v ∈ k.tensors, ∀ p ∈ v.producers, p.index < k.ops.length := by
    intro v hv p hp
    obtain ⟨j, hj⟩ := List.getElem?_of_mem hv
    have hedge : k.Edge .outputs p ⟨j⟩ := (edge_iff (x := ⟨j⟩) hj).mpr hp
    simpa [operands] using ((h.writing p ⟨j⟩).mp hedge).lt
  have hends : Step.Ends _ _ (preserveInput ⟨i⟩ 0 k) :=
    preserveInput_ends h.named (h.waiting ha.op hi) (by rw [hstands.status]; rfl) ha.reads hu
      hlayout (hconsumers i hi hreader) hproducers
  have hshared := h.shared_or_free hg hnames hdone ha
  rw [← hname] at hshared
  have hclash : k.InputClash u l ↔ t.rank ≠ l.rank := by
    refine ⟨?_, fun hne => Or.inl (by rwa [hrank])⟩
    rintro (hne | ⟨hnone, e, v, he, -, -⟩)
    · rwa [hrank] at hne
    · obtain ⟨turn, moved, hturn, -⟩ | ⟨hfree, -⟩ := hshared
      · rw [h.producerNamed?_eq hturn] at hnone
        cases hnone
      · rw [hfree] at he
        cases he
  refine (hends.weaken fun e he => ⟨he.1, hclash.mp he.2⟩).mono ?_
  rintro _ _ ⟨hfits, rfl⟩
  refine ⟨not_not.mp (mt hclash.mpr hfits), ?_⟩
  obtain ⟨turn, moved, hturn, j, hj, hreads⟩ | ⟨hfree, hfirst⟩ := hshared
  · rw [inputPreserved, h.producerNamed?_eq hturn]
    exact h.led hi ha ⟨hstands.pre, hstands.post⟩ (hname ▸ h.led_readingInstead ha hturn)
      (if_neg (firstAsker?_concat_ne hi hj hreads)).symm
  · have hnone : producerNamed? k (synthesizedName "Transposed" u.name) = none :=
      producerNamed?_eq_none.mpr fun e v he => by
        rw [hfree] at he
        cases he
    rw [inputPreserved, hnone]
    exact h.led hi ha ⟨hstands.pre, hstands.post⟩ (hname ▸ h.led_inputSpliced ha hfree)
      (if_pos (firstAsker?_concat_self hfirst)).symm

/-! ## All requests -/

/-- Ask for the first inputs of some operators in source order, one after the
other. -/
def preserveFirstInputs (requests : List Nat) : Step Graph Unit :=
  requests.forM fun i => discard (preserveInput ⟨i⟩ 0)

theorem Wired.turned (h : g.Wired) (hnamed : g.Named) : Turned g [] g where
  named := hnamed
  writing := h.edge_iff_operand .outputs
  grows := ⟨Nat.le_refl _, Nat.le_refl _⟩
  tensors := fun ht => ⟨_, ht, rfl, fun _ _ h => h⟩
  moved := fun hle hlt => absurd hlt (Nat.not_lt.mpr hle)
  waiting := fun ho _ => ho
  asked := fun hi => absurd hi List.not_mem_nil
  turns := fun hle hlt => absurd hlt (Nat.not_lt.mpr hle)

/-- Requests of distinct operators stop if a tensor that is asked for has
another rank than its layout; otherwise they leave what `Turned` describes. -/
theorem Intake.preserveFirstInputs_ends (hg : Intake s layouts g) (hnames : s.Unreserved)
    (hnodup : requests.Nodup) (hasks : ∀ i ∈ requests, ∃ o x t l, g.Asks i o x t l) :
    Step.Ends (Fault.Broken (∃ i ∈ requests, ∃ o x t l, g.Asks i o x t l ∧ t.rank ≠ l.rank))
      (fun _ k => (∀ i ∈ requests, ∀ o x t l, g.Asks i o x t l → t.rank = l.rank) ∧
        Turned g requests k)
      (preserveFirstInputs requests g) := by
  refine Step.Ends.forM (I := fun done k =>
    (∀ i ∈ done, ∀ o x t l, g.Asks i o x t l → t.rank = l.rank) ∧ Turned g done k)
    ⟨fun _ hi => absurd hi List.not_mem_nil, hg.taken.wired.turned hg.named⟩ ?_
  rintro done i rest k rfl ⟨hfits, h⟩
  have hi : i ∈ done ++ i :: rest := List.mem_append_right _ List.mem_cons_self
  obtain ⟨o, x, t, l, ha⟩ := hasks i hi
  have hnew : i ∉ done := fun hmem =>
    (List.nodup_append.mp hnodup).2.2 i hmem i List.mem_cons_self rfl
  have hends := h.request_ends hg hnames (fun j hj => hasks j (List.mem_append_left _ hj)) hnew ha
  refine (hends.weaken fun e he => ⟨he.1, i, hi, o, x, t, l, ha, he.2⟩).discard.mono ?_
  rintro _ k' ⟨_, hrank, hturned⟩
  refine ⟨fun j hj o' x' t' l' hasks' => ?_, hturned⟩
  rcases List.mem_append.mp hj with hj | hj
  · exact hfits j hj o' x' t' l' hasks'
  · obtain rfl := List.mem_singleton.mp hj
    obtain ⟨rfl, rfl, rfl, rfl⟩ := ha.unique hasks'
    exact hrank

end Relayout.Graph
