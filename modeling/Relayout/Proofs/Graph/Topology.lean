/-
# Topological emission

Which orders of requests keep the emission topological.  What is synthesized is
emitted with the operator that asked for it first, so a tensor that several
operators ask for is there for all of them exactly if the first to ask is also
the first to be emitted.  Where a later operator asks first, an earlier one reads
a tensor that is not there yet.
-/
import Relayout.Proofs.Graph.Growth
import Relayout.Proofs.Graph.Sharing

open scoped List

namespace Relayout

/-! ## Sources in order -/

namespace Scope

/-- The names of the tensors that an operator of the source reads. -/
def readNames (s : Scope) (i : Nat) : List String :=
  (s.subgraph.operators[i]?.elim [] fun decl => decl.inputs).filterMap s.nameAt?

/-- The names of the tensors that an operator of the source writes. -/
def writtenNames (s : Scope) (i : Nat) : List String :=
  (s.subgraph.operators[i]?.elim [] fun decl => decl.outputs).filterMap s.nameAt?

/-- The operators of a source are in topological order: what writes a tensor
comes before what reads it.  No tensor has a reserved name. -/
structure Ordered (s : Scope) : Prop where
  unreserved : s.Unreserved
  before : ∀ i < s.subgraph.operators.length, ∀ j < s.subgraph.operators.length,
    ∀ name ∈ s.readNames i, name ∈ s.writtenNames j → j < i

/-- Every tensor of a source is written at most once. -/
def WrittenOnce (s : Scope) : Prop :=
  ((List.range s.subgraph.operators.length).flatMap s.writtenNames).Nodup

end Scope

namespace Graph

variable {s : Scope} {layouts : SortedMap ExplicitLayout} {g k : Graph} {i j n : Nat}
  {x y moved : TensorId} {turn p r : OpId} {o : Operator} {t : Tensor} {l : Layout}
  {side : Side} {requests : List Nat}

theorem Operand.exists_op (h : g.Operand side p x) :
    ∃ o, g.ops[p.index]? = some o ∧ x ∈ o.operands side := by
  obtain ⟨ids, hids, hx⟩ := h
  obtain ⟨o, ho, rfl⟩ := Option.map_eq_some_iff.mp ((List.getElem?_map ..).symm.trans hids)
  exact ⟨o, ho, hx⟩

theorem nameOf?_mem {ids : List TensorId} {names : List String}
    (h : ids.map g.nameOf? = names.map some) (hx : x ∈ ids) :
    ∃ name ∈ names, g.nameOf? x = some name := by
  have hmem : g.nameOf? x ∈ names.map some := h ▸ List.mem_map_of_mem hx
  obtain ⟨name, hname, heq⟩ := List.mem_map.mp hmem
  exact ⟨name, hname, heq.symm⟩

/-- What an operator reads is named by the source, or is the vector of its
shape. -/
theorem Intake.readNames_of_mem (h : Intake s layouts g) (ho : g.ops[i]? = some o)
    (hx : x ∈ o.inputs) :
    ∃ name, g.nameOf? x = some name ∧ (name ∈ s.readNames i ∨ Reserved name) := by
  obtain ⟨decl, c, hdecl, hc, hstands⟩ := h.stands_at ho
  obtain ⟨name, hname, hx⟩ := nameOf?_mem hstands.inputs hx
  refine ⟨name, hx, (Scope.operandAt?_input hc hname).imp ?_ ?_⟩
  · rintro ⟨slot, p, hoperand, hp⟩
    have hin : s.nameIn? decl.inputs slot = some name := by
      rw [Scope.nameIn?_eq, hoperand, Option.bind_some, hp]
    obtain ⟨index, hindex, hin⟩ := Option.bind_eq_some_iff.mp hin
    rw [Scope.readNames, hdecl]
    exact List.mem_filterMap.mpr ⟨index, List.mem_of_getElem? hindex, hin⟩
  · rintro rfl
    exact reserved_synthesizedName _ _

/-- What an operator writes is named by the source. -/
theorem Intake.writtenNames_of_mem (h : Intake s layouts g) (ho : g.ops[i]? = some o)
    (hx : x ∈ o.outputs) : ∃ name, g.nameOf? x = some name ∧ name ∈ s.writtenNames i := by
  obtain ⟨decl, c, hdecl, hc, hstands⟩ := h.stands_at ho
  obtain ⟨name, hname, hx⟩ := nameOf?_mem hstands.map_outputs hx
  obtain rfl := List.mem_singleton.mp hname
  refine ⟨_, hx, ?_⟩
  obtain ⟨index, d, hindex, hd, hname⟩ := Scope.outputs_of_call? hc
  rw [Scope.writtenNames, hdecl]
  have hmem : index ∈ decl.outputs := by
    rw [hindex]
    exact List.mem_singleton_self _
  exact List.mem_filterMap.mpr ⟨index, hmem, hname ▸ Scope.nameAt?_of_tensor hd⟩

theorem not_reserved_of_mem_writtenNames {name : String} (hs : s.Unreserved)
    (h : name ∈ s.writtenNames i) : ¬Reserved name := by
  obtain ⟨index, -, hname⟩ := List.mem_filterMap.mp h
  rw [Scope.nameAt?_eq] at hname
  split at hname
  · exact hs.not_reserved hname
  · cases hname

/-- After intake of an ordered source, writers are older than readers. -/
theorem Intake.lt_of_reads (h : Intake s layouts g) (hs : s.Ordered)
    (hp : g.Operand .outputs p x) (hr : g.Operand .inputs r x) : p.index < r.index := by
  obtain ⟨o, ho, hwritten⟩ := hp.exists_op
  obtain ⟨o', ho', hread⟩ := hr.exists_op
  obtain ⟨name, hname, hwrites⟩ := h.writtenNames_of_mem ho hwritten
  obtain ⟨name', hname', hreads⟩ := h.readNames_of_mem ho' hread
  obtain rfl := Option.some.inj (hname.symm.trans hname')
  have hlt := (List.getElem?_eq_some_iff.mp ho).1
  have hlt' := (List.getElem?_eq_some_iff.mp ho').1
  rw [h.taken.length] at hlt hlt'
  exact hs.before _ hlt' _ hlt name
    (hreads.resolve_right (not_reserved_of_mem_writtenNames hs.unreserved hwrites)) hwrites

/-! ## Positions in the order -/

/-- An order is topological: what produces a tensor comes before what reads
it. -/
def Topological (g : Graph) (order : List OpId) : Prop :=
  ∀ p r x, g.Edge .outputs p x → g.Operand .inputs r x → [p, r] <+ order

theorem not_sublist_swap {α : Type} {a b : α} {xs : List α} (hxs : xs.Nodup) (h : [a, b] <+ xs) :
    ¬[b, a] <+ xs := by
  induction xs with
  | nil => cases h
  | cons c xs ih =>
      obtain ⟨hc, hxs⟩ := List.nodup_cons.mp hxs
      intro h'
      cases h with
      | cons _ h =>
          cases h' with
          | cons _ h' => exact ih hxs h h'
          | cons_cons _ _ => exact hc (h.subset (List.mem_cons_of_mem _ List.mem_cons_self))
      | cons_cons _ h =>
          cases h' with
          | cons _ h' => exact hc (h'.subset (List.mem_cons_of_mem _ List.mem_cons_self))
          | cons_cons _ _ => exact hc (h.subset List.mem_cons_self)

section Emission

variable (h : k.plan.Forest n)

include h

theorem mem_stretch_self (hi : OpId.index ⟨i⟩ < k.ops.length) : ⟨i⟩ ∈ k.stretch ⟨i⟩ :=
  (h.mem_stretch hi).mpr .refl

/-- What is emitted with an older operator of the source comes before what is
emitted with a younger one. -/
theorem sublist_emission_of_lt (hij : i < j) (hj : j < n) (hp : p ∈ k.stretch ⟨i⟩)
    (hr : r ∈ k.stretch ⟨j⟩) : [p, r] <+ k.order.flatMap k.stretch := by
  have horder : k.order = (List.range n).map OpId.mk := h.order
  have hpair : [i, j] <+ List.range n := by
    have hi : [i] <+ List.range j := List.singleton_sublist.mpr (List.mem_range.mpr hij)
    calc [i] ++ [j] <+ List.range j ++ [j] := hi.append_right _
      _ = List.range (j + 1) := List.range_succ.symm
      _ <+ List.range n := List.range_sublist.mpr hj
  have hroots : [⟨i⟩, ⟨j⟩] <+ k.order := by
    rw [horder]
    exact hpair.map OpId.mk
  calc [p] ++ [r] <+ k.stretch ⟨i⟩ ++ k.stretch ⟨j⟩ :=
        (List.singleton_sublist.mpr hp).append (List.singleton_sublist.mpr hr)
    _ = [⟨i⟩, ⟨j⟩].flatMap k.stretch := by simp
    _ <+ k.order.flatMap k.stretch := hroots.flatMap k.stretch

theorem stretch_sublist_emission (hi : i < n) : k.stretch ⟨i⟩ <+ k.order.flatMap k.stretch := by
  have hmem : ⟨i⟩ ∈ k.order := by
    rw [show k.order = _ from h.order]
    exact List.mem_map_of_mem (List.mem_range.mpr hi)
  simpa using (List.singleton_sublist.mpr hmem).flatMap k.stretch

theorem nodup_emission : (k.order.flatMap k.stretch).Nodup :=
  h.emission_perm.nodup_iff.mpr (List.nodup_range.map fun _ _ => OpId.mk.inj)

end Emission

/-! ## Who writes and who reads -/

section Turned

variable (h : Turned g requests k)

include h

/-- What has become of an operator of the source. -/
theorem Turned.stays (hasks : ∀ i ∈ requests, ∃ o x t l, g.Asks i o x t l)
    (ho : g.ops[i]? = some o) :
    ∃ o', k.ops[i]? = some o' ∧ o'.outputs = o.outputs ∧ (o'.inputs = o.inputs ∨
      i ∈ requests ∧ ∃ x t l turn moved, g.Asks i o x t l ∧
        g.Turn k x (synthesizedName "Transposed" t.name) turn moved ∧
        o'.inputs = o.inputs.set 0 moved) := by
  by_cases hi : i ∈ requests
  · obtain ⟨o₁, x, t, l, ha⟩ := hasks i hi
    obtain rfl := Option.some.inj (ho.symm.trans ha.op)
    obtain ⟨turn, moved, o', hturn, ho', hins, houts, -⟩ := h.asked hi ha
    exact ⟨o', ho', houts, Or.inr ⟨hi, x, t, l, turn, moved, ha, hturn, hins⟩⟩
  · exact ⟨o, h.waiting ho hi, rfl, Or.inl rfl⟩

/-- What is written was written before, or made by a transpose. -/
theorem Turned.writer_cases (hasks : ∀ i ∈ requests, ∃ o x t l, g.Asks i o x t l)
    (hp : k.Edge .outputs p x) :
    g.Operand .outputs p x ∨ ∃ i ∈ requests, g.firstAsker? requests i = some i ∧
      ∃ o y t l, g.Asks i o y t l ∧
        g.Turn k y (synthesizedName "Transposed" t.name) p x := by
  obtain ⟨q, hq, hx⟩ := ((h.writing p x).mp hp).exists_op
  change x ∈ q.outputs at hx
  by_cases hold : p.index < g.ops.length
  · have ho := List.getElem?_eq_getElem hold
    obtain ⟨o', ho', houts, -⟩ := h.stays hasks ho
    obtain rfl := Option.some.inj (hq.symm.trans ho')
    rw [houts] at hx
    exact Or.inl ((operand_iff ho).mpr hx)
  · obtain ⟨i, hi, hfirst, o, y, t, l, moved, ha, hturn⟩ :=
      h.turns (Nat.not_lt.mp hold) (List.getElem?_eq_some_iff.mp hq).1
    obtain ⟨q', hq', -, houts, -⟩ := hturn.op
    obtain rfl := Option.some.inj (hq.symm.trans hq')
    rw [houts] at hx
    obtain rfl := List.mem_singleton.mp hx
    exact Or.inr ⟨i, hi, hfirst, o, y, t, l, ha, hturn⟩

/-- What is read was read before, or is what the reader asked for, or is read by
a transpose. -/
theorem Turned.reader_cases (hasks : ∀ i ∈ requests, ∃ o x t l, g.Asks i o x t l)
    (hr : k.Operand .inputs r x) :
    g.Operand .inputs r x ∨
      (r.index ∈ requests ∧ ∃ o y t l turn, g.Asks r.index o y t l ∧
        g.Turn k y (synthesizedName "Transposed" t.name) turn x) ∨
      ∃ i ∈ requests, g.firstAsker? requests i = some i ∧ ∃ o t l moved, g.Asks i o x t l ∧
        g.Turn k x (synthesizedName "Transposed" t.name) r moved := by
  obtain ⟨q, hq, hx⟩ := hr.exists_op
  change x ∈ q.inputs at hx
  by_cases hold : r.index < g.ops.length
  · have ho := List.getElem?_eq_getElem hold
    obtain ⟨o', ho', -, hins⟩ := h.stays hasks ho
    obtain rfl := Option.some.inj (hq.symm.trans ho')
    obtain hins | ⟨hi, y, t, l, turn, moved, ha, hturn, hins⟩ := hins
    · rw [hins] at hx
      exact Or.inl ((operand_iff ho).mpr hx)
    · rw [hins] at hx
      obtain hx | rfl := List.mem_or_eq_of_mem_set hx
      · exact Or.inl ((operand_iff ho).mpr hx)
      · exact Or.inr (Or.inl ⟨hi, _, y, t, l, turn, ha, hturn⟩)
  · obtain ⟨i, hi, hfirst, o, y, t, l, moved, ha, hturn⟩ :=
      h.turns (Nat.not_lt.mp hold) (List.getElem?_eq_some_iff.mp hq).1
    obtain ⟨q', hq', hins, -⟩ := hturn.op
    obtain rfl := Option.some.inj (hq.symm.trans hq')
    rw [hins] at hx
    obtain rfl := List.mem_singleton.mp hx
    exact Or.inr (Or.inr ⟨i, hi, hfirst, o, t, l, moved, ha, hturn⟩)

/-- The first to ask is emitted right behind the transpose. -/
theorem Turned.stretch_eq (hforest : k.plan.Forest n) (hi : i ∈ requests)
    (hfirst : g.firstAsker? requests i = some i) (ha : g.Asks i o x t l)
    (hturn : g.Turn k x (synthesizedName "Transposed" t.name) turn moved) :
    k.stretch ⟨i⟩ = [turn, ⟨i⟩] := by
  obtain ⟨turn', moved', o', hturn', ho', -, -, hpre, hpost⟩ := h.asked hi ha
  obtain ⟨rfl, rfl⟩ := h.turn_unique hturn hturn'
  obtain ⟨q, hq, -, -, hnone, hnone'⟩ := hturn.op
  have hleaf : k.stretch turn' = [turn'] := by
    rw [hforest.stretch_eq hq, hnone, hnone']
    rfl
  have ho' : k.ops[OpId.index ⟨i⟩]? = some o' := ho'
  rw [hforest.stretch_eq ho', hpre, hpost, if_pos hfirst, List.flatMap_singleton, hleaf]
  rfl

end Turned

/-! ## When the emission is topological -/

theorem firstAsker?_spec (h : g.firstAsker? requests j = some i) :
    i ∈ requests ∧ g.firstInput? i = g.firstInput? j ∧ g.firstAsker? requests i = some i := by
  have hsame : g.firstInput? i = g.firstInput? j := by simpa using List.find?_some h
  refine ⟨List.mem_of_find?_eq_some h, hsame, ?_⟩
  rwa [firstAsker?, hsame]

theorem Intake.lt_of_operand (h : Intake s layouts g) (hx : g.Operand side p x) :
    x.index < g.tensors.length := by
  have hlt := ((h.taken.wired.edge_iff_operand side p x).mpr hx).lt
  rwa [ends, List.length_map] at hlt

section Iff

variable (h : Turned g requests k) (hasks : ∀ i ∈ requests, ∃ o x t l, g.Asks i o x t l)
  (hforest : k.plan.Forest g.ops.length)

include h hasks hforest

/-- If someone asks before an earlier reader, the earlier one comes before the
transpose. -/
theorem Turned.le_of_topological (htop : k.Topological (k.order.flatMap k.stretch))
    (hj : j ∈ requests) (hi : g.firstAsker? requests j = some i) : i ≤ j := by
  obtain ⟨hmem, hsame, hfirst⟩ := firstAsker?_spec hi
  obtain ⟨o, x, t, l, ha⟩ := hasks j hj
  obtain ⟨o', x', t', l', ha'⟩ := hasks i hmem
  obtain rfl : x' = x :=
    Option.some.inj (ha'.firstInput?_eq.symm.trans (hsame.trans ha.firstInput?_eq))
  obtain rfl := Option.some.inj (ha'.source.symm.trans ha.source)
  obtain ⟨turn, moved, oj, hturn, hoj, hins, -⟩ := h.asked hj ha
  have hstretch := h.stretch_eq hforest hmem hfirst ha' hturn
  have hreads : k.Operand .inputs ⟨j⟩ moved := by
    refine (operand_iff (p := ⟨j⟩) hoj).mpr ?_
    change moved ∈ oj.inputs
    rw [hins]
    exact List.mem_set (List.getElem?_eq_some_iff.mp ha.reads).1 _
  by_contra hlt
  have hright := htop turn ⟨j⟩ moved (h.edge_turn hturn) hreads
  have hwrong := sublist_emission_of_lt hforest (Nat.not_le.mp hlt) ha'.lt
    (mem_stretch_self hforest (List.getElem?_eq_some_iff.mp hoj).1)
    (hstretch ▸ List.mem_cons_self)
  exact not_sublist_swap (nodup_emission hforest) hright hwrong

/-- Where the first to ask is the first to be emitted, all readers come behind
the transpose. -/
theorem Turned.topological_of_le (hg : Intake s layouts g) (hs : s.Ordered)
    (hle : ∀ j ∈ requests, ∀ i, g.firstAsker? requests j = some i → i ≤ j) :
    k.Topological (k.order.flatMap k.stretch) := by
  intro p r x hp hr
  have hself : ∀ {q : OpId}, q.index < g.ops.length → q ∈ k.stretch ⟨q.index⟩ := fun hq =>
    mem_stretch_self hforest (Nat.lt_of_lt_of_le hq h.grows.2)
  obtain hwrites | ⟨i, hi, hfirst, o, y, t, l, ha, hturn⟩ := h.writer_cases hasks hp
  · have hold := hg.lt_of_operand hwrites
    have hplt : p.index < g.ops.length := by simpa [operands] using hwrites.lt
    obtain hreads | ⟨-, o, y, t, l, turn, -, hturn⟩ | ⟨i, hi, hfirst, o, t, l, moved, ha, hturn⟩ :=
      h.reader_cases hasks hr
    · have hrlt : r.index < g.ops.length := by simpa [operands] using hreads.lt
      exact sublist_emission_of_lt hforest (hg.lt_of_reads hs hwrites hreads) hrlt (hself hplt)
        (hself hrlt)
    · exact absurd hold (Nat.not_lt.mpr hturn.beyond)
    · have hstretch := h.stretch_eq hforest hi hfirst ha hturn
      exact sublist_emission_of_lt hforest (hg.lt_of_reads hs hwrites ha.operand) ha.lt (hself hplt)
        (hstretch ▸ List.mem_cons_self)
  · -- the tensor is a turned one, so it is read by those that asked for it
    have hstretch := h.stretch_eq hforest hi hfirst ha hturn
    obtain hreads | ⟨hrmem, o', y', t', l', turn', ha', hturn'⟩ | ⟨i', -, -, o', t', l', -, ha', -⟩ :=
      h.reader_cases hasks hr
    · exact absurd (hg.lt_of_operand hreads) (Nat.not_lt.mpr hturn.beyond)
    · have hname : t.name = t'.name :=
        synthesizedName_injective (Option.some.inj (hturn.named.symm.trans hturn'.named))
      obtain rfl : y = y' :=
        TensorId.index_inj.mp (hg.named.eq_of_name ha.source ha'.source hname)
      have hasker : g.firstAsker? requests r.index = some i := by
        rw [firstAsker?, ha'.firstInput?_eq, ← ha.firstInput?_eq]
        exact hfirst
      obtain heq | hlt := Nat.eq_or_lt_of_le (hle r.index hrmem i hasker)
      · have hwhole := stretch_sublist_emission hforest ha.lt
        rw [hstretch, heq] at hwhole
        exact hwhole
      · exact sublist_emission_of_lt hforest hlt ha'.lt (hstretch ▸ List.mem_cons_self)
          (hself ha'.lt)
    · exact absurd (List.getElem?_eq_some_iff.mp ha'.source).1 (Nat.not_lt.mpr hturn.beyond)

end Iff

/-- Requests of distinct operators for their first inputs, in any order.  They go
through exactly if every tensor that is asked for has the rank of its layout.
The emission is topological then exactly if nobody asks before an earlier
operator that asks for the same tensor. -/
theorem emissionOrder_topological_iff (hg : IsIntake s layouts g) (hs : s.Ordered)
    (hnodup : requests.Nodup) (hasks : ∀ i ∈ requests, ∃ o x t l, g.Asks i o x t l) :
    ((∃ k, preserveFirstInputs requests g = .ok ⟨⟩ k) ↔
        ∀ i ∈ requests, ∀ o x t l, g.Asks i o x t l → t.rank = l.rank) ∧
      ∀ k, preserveFirstInputs requests g = .ok ⟨⟩ k →
        ∃ order, emissionOrder k = .ok order ∧
          (k.Topological order ↔
            ∀ j ∈ requests, ∀ i, g.firstAsker? requests j = some i → i ≤ j) := by
  have hends := hg.intake.preserveFirstInputs_ends hs.unreserved hnodup hasks
  have hgrows : (preserveFirstInputs requests).Within PlanGrows :=
    .forM fun i _ => (preserveInput_grows ⟨i⟩ 0).discard
  refine ⟨⟨?_, fun hfits => ?_⟩, fun k hrun => ?_⟩
  · rintro ⟨k, hrun⟩
    rw [hrun] at hends
    exact hends.1
  · cases hrun : preserveFirstInputs requests g with
    | ok _ k => exact ⟨k, rfl⟩
    | error e k =>
        rw [hrun] at hends
        obtain ⟨-, i, hi, o, x, t, l, ha, hne⟩ := hends
        exact absurd (hfits i hi o x t l ha) hne
  · rw [hrun] at hends
    have hforest := (hgrows.of_ok hrun).forest hg.intake.forest
    rw [← hg.intake.taken.length] at hforest
    exact ⟨_, hforest.emissionOrder_eq,
      fun htop j hj i hi => hends.2.le_of_topological hasks hforest htop hj hi,
      hends.2.topological_of_le hasks hforest hg.intake hs⟩

/-- Whether an operator can ask for its first input in source order. -/
def asks? (g : Graph) (i : Nat) : Bool :=
  ((g.firstInput? i).bind fun x => g.tensors[x.index]?.bind Tensor.layout).isSome

theorem exists_asks (h : g.asks? i = true) : ∃ o x t l, g.Asks i o x t l := by
  obtain ⟨l, hl⟩ := Option.isSome_iff_exists.mp h
  obtain ⟨x, hx, hl⟩ := Option.bind_eq_some_iff.mp hl
  obtain ⟨t, ht, hl⟩ := Option.bind_eq_some_iff.mp hl
  obtain ⟨o, ho, hreads⟩ := Option.bind_eq_some_iff.mp hx
  exact ⟨o, x, t, l, ho, hreads, ht, hl⟩

def forkedInputLayouts : SortedMap ExplicitLayout := .insert .empty "x" ⟨"AB", "BA"⟩

theorem forkedScope_ordered : forkedScope.Ordered where
  unreserved := by
    unfold Scope.Unreserved
    decide
  before := by decide

theorem forkedScope_writtenOnce : forkedScope.WrittenOnce := by
  unfold Scope.WrittenOnce
  decide

/-- Two readers of one tensor that ask in the order they are emitted in. -/
theorem emissionOrder_topological_iff_forked : ∃ g k, IsIntake forkedScope forkedInputLayouts g ∧
    forkedScope.Ordered ∧ [0, 1].Nodup ∧ (∀ i ∈ [0, 1], ∃ o x t l, g.Asks i o x t l) ∧
    preserveFirstInputs [0, 1] g = .ok ⟨⟩ k ∧
    emissionOrder k = .ok [⟨2⟩, ⟨0⟩, ⟨1⟩] ∧ k.Topological [⟨2⟩, ⟨0⟩, ⟨1⟩] := by
  obtain ⟨g, k, hg, hrun, hseen⟩ := exists_of_intakeThen? forkedScope forkedInputLayouts
    (preserveFirstInputs [0, 1])
    (fun r => decide ([0, 1].all r.1.asks? = true ∧
      [0, 1].map (r.1.firstAsker? [0, 1]) = [some 0, some 0] ∧
      (emissionOrder r.2).toOption = some [⟨2⟩, ⟨0⟩, ⟨1⟩])) (by decide +kernel)
  obtain ⟨hlayouts, hfirst, horder⟩ := of_decide_eq_true hseen
  have hasks : ∀ i ∈ [0, 1], ∃ o x t l, g.Asks i o x t l := fun i hi =>
    exists_asks (List.all_eq_true.mp hlayouts i hi)
  obtain ⟨order, heq, htop⟩ :=
    (emissionOrder_topological_iff hg forkedScope_ordered (by decide) hasks).2 k hrun
  rw [heq] at horder
  obtain rfl := Option.some.inj horder
  refine ⟨g, k, hg, forkedScope_ordered, by decide, hasks, hrun, heq, htop.mpr fun j hj i hi => ?_⟩
  have hmem : g.firstAsker? [0, 1] j ∈ [some 0, some 0] := hfirst ▸ List.mem_map_of_mem hj
  rw [hi] at hmem
  obtain rfl : i = 0 := by simpa using hmem
  exact Nat.zero_le j

/-- The requests of distinct operators may leave an order that is not
topological. -/
theorem preserveFirstInputs_not_topological :
    ¬∀ (s : Scope) (layouts : SortedMap ExplicitLayout) (g k : Graph) (requests : List Nat),
      IsIntake s layouts g → s.Ordered → s.WrittenOnce → requests.Nodup →
      (∀ i ∈ requests, ∃ o x t l, g.Asks i o x t l) →
      preserveFirstInputs requests g = .ok ⟨⟩ k →
        ∃ order, emissionOrder k = .ok order ∧ k.Topological order := by
  intro h
  obtain ⟨g, k, hg, hrun, hseen⟩ := exists_of_intakeThen? forkedScope forkedInputLayouts
    (preserveFirstInputs [1, 0])
    (fun r => decide ([1, 0].all r.1.asks? = true ∧
      (emissionOrder r.2).toOption = some [⟨0⟩, ⟨2⟩, ⟨1⟩] ∧
      (r.2.ends .outputs)[5]? = some [OpId.mk 2] ∧
      (r.2.operands .inputs)[0]? = some [TensorId.mk 5, TensorId.mk 1]))
    (by decide +kernel)
  obtain ⟨hlayouts, horder, hproducers, hinputs⟩ := of_decide_eq_true hseen
  obtain ⟨order, heq, htop⟩ := h _ _ g k [1, 0] hg forkedScope_ordered forkedScope_writtenOnce
    (by decide) (fun i hi => exists_asks (List.all_eq_true.mp hlayouts i hi)) hrun
  rw [heq] at horder
  obtain rfl := Option.some.inj horder
  have hbefore : [OpId.mk 2, ⟨0⟩] <+ [⟨0⟩, ⟨2⟩, ⟨1⟩] := htop ⟨2⟩ ⟨0⟩ ⟨5⟩
    ⟨_, hproducers, List.mem_singleton_self _⟩ ⟨_, hinputs, List.mem_cons_self⟩
  exact absurd hbefore (by decide)

end Graph

end Relayout
