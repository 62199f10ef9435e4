/-
# The forest of splices

Operators are emitted as a forest: the operators of the source are its roots,
in source order, and below an operator hang the operators spliced in before and
behind it.  What the order of emission depends on is the *plan* of a graph, and
a plan grows in one way only: a new operator is hung below an old one.  So every
synthesized operator has exactly one owner, created before it, and this is all
that the following needs:

    the flattening of an operator does not depend on the fuel;
    flattening the roots lists every operator once.

The second is a count.  Flattening every operator of the arena lists each of
them once for itself and once more for every place it hangs below; the
synthesized ones hang below one place each, so what the roots do not account for
cancels.
-/
import Mathlib.Data.List.Flatten
import Mathlib.Data.List.Infix
import Mathlib.Data.List.Perm.Basic
import Mathlib.Logic.Relation
import Relayout.Graph.Emission
import Relayout.Proofs.Graph.Edit

open scoped List

namespace Relayout

/-! ## Plans -/

/-- What the order of emission knows of an operator: its position in the
source, if any, and what is spliced in around it. -/
structure Place where
  source : Option Nat
  pre : List OpId
  post : List OpId

def Operator.place (o : Operator) : Place := ⟨o.index, o.pre, o.post⟩

namespace Place

def splices (p : Place) : List OpId := p.pre ++ p.post

def addPre (id : OpId) (p : Place) : Place := { p with pre := p.pre ++ [id] }

def addPost (id : OpId) (p : Place) : Place := { p with post := p.post ++ [id] }

theorem splices_addPre (id : OpId) (p : Place) :
    (p.addPre id).splices.Perm (p.splices ++ [id]) := by
  have hswap : ([id] ++ p.post).Perm (p.post ++ [id]) := List.perm_append_comm
  simpa [splices, addPre, List.append_assoc] using hswap.append_left p.pre

theorem splices_addPost (id : OpId) (p : Place) :
    (p.addPost id).splices.Perm (p.splices ++ [id]) := by
  rw [splices, splices, addPost, List.append_assoc]

end Place

/-- What the order of emission depends on. -/
structure Plan where
  places : List Place
  order : List OpId
  created : List OpId

def Graph.plan (g : Graph) : Plan := ⟨g.ops.map Operator.place, g.order, g.created⟩

namespace Plan

variable {n : Nat} {w v u : Plan} {id : OpId}

/-- The identifier of the next operator. -/
def next (w : Plan) : OpId := ⟨w.places.length⟩

/-- A new operator, hung below an old one. -/
def splice (w : Plan) (id : OpId) (hang : OpId → Place → Place) : Plan where
  places := w.places.modify id.index (hang w.next) ++ [⟨none, [], []⟩]
  order := w.order
  created := w.created ++ [w.next]

/-- The plan once an operator was synthesized that hangs nowhere yet. -/
def loose (w : Plan) : Plan where
  places := w.places ++ [⟨none, [], []⟩]
  order := w.order
  created := w.created ++ [w.next]

/-- One plan comes from another by splices. -/
inductive Grows (w : Plan) : Plan → Prop
  | refl : Grows w w
  | before {v : Plan} {id : OpId} : Grows w v → id.index < v.places.length →
      Grows w (v.splice id Place.addPre)
  | behind {v : Plan} {id : OpId} : Grows w v → id.index < v.places.length →
      Grows w (v.splice id Place.addPost)

theorem Grows.trans (h : w.Grows v) (h' : v.Grows u) : w.Grows u := by
  induction h' with
  | refl => exact h
  | before _ hid ih => exact ih.before hid
  | behind _ hid ih => exact ih.behind hid

/-- The first `n` operators are those of the source, in order; every other one
hangs below one operator, which is older. -/
structure Forest (n : Nat) (w : Plan) : Prop where
  count : n ≤ w.places.length
  order : w.order = (List.range n).map OpId.mk
  created : w.created = (List.range' n (w.places.length - n)).map OpId.mk
  owned : (w.places.flatMap Place.splices).Perm w.created
  later : ∀ {i : Nat} {p : Place}, w.places[i]? = some p → ∀ id ∈ p.splices, i < id.index
  sources : ∀ {i : Nat} {p : Place}, w.places[i]? = some p →
    p.source = if i < n then some i else none

theorem flatMap_modify_perm {α β : Type} {xs : List α} {i : Nat} {m : α → α} {f : α → List β}
    {ys : List β} (hi : i < xs.length) (h : ∀ x, (f (m x)).Perm (f x ++ ys)) :
    ((xs.modify i m).flatMap f).Perm (xs.flatMap f ++ ys) := by
  induction xs generalizing i with
  | nil => exact absurd hi (Nat.not_lt_zero i)
  | cons x xs ih =>
      cases i with
      | zero =>
          calc (((x :: xs).modify 0 m).flatMap f)
              = f (m x) ++ xs.flatMap f := rfl
            _ ~ (f x ++ ys) ++ xs.flatMap f := (h x).append_right _
            _ ~ f x ++ (ys ++ xs.flatMap f) := by rw [List.append_assoc]
            _ ~ f x ++ (xs.flatMap f ++ ys) := List.perm_append_comm.append_left _
            _ ~ (x :: xs).flatMap f ++ ys := by rw [List.flatMap_cons, List.append_assoc]
      | succ i =>
          have hrest := ih (Nat.lt_of_succ_lt_succ hi)
          rw [List.modify_succ_cons, List.flatMap_cons, List.flatMap_cons, List.append_assoc]
          exact hrest.append_left _

theorem Forest.splice {hang : OpId → Place → Place} (h : w.Forest n)
    (hid : id.index < w.places.length)
    (hsplices : ∀ p, (hang w.next p).splices.Perm (p.splices ++ [w.next]))
    (hsource : ∀ p, (hang w.next p).source = p.source) : (w.splice id hang).Forest n where
  count := by
    have := h.count
    simp only [Plan.splice, List.length_append, List.length_modify]
    omega
  order := h.order
  created := by
    have hcount : (w.splice id hang).places.length - n = (w.places.length - n) + 1 := by
      have := h.count
      simp only [Plan.splice, List.length_append, List.length_modify, List.length_singleton]
      omega
    have hlast : n + (w.places.length - n) = w.places.length := by
      have := h.count
      omega
    rw [hcount, List.range'_concat, List.map_append, ← h.created, Nat.one_mul, hlast]
    rfl
  owned := by
    have hold := flatMap_modify_perm hid hsplices
    have hnew : (w.splice id hang).places.flatMap Place.splices =
        (w.places.modify id.index (hang w.next)).flatMap Place.splices := by
      rw [Plan.splice, List.flatMap_append, List.flatMap_singleton]
      exact List.append_nil _
    rw [hnew]
    exact hold.trans (h.owned.append_right _)
  later := by
    intro i p hp q hq
    rcases getElem?_modify_concat_cases hp with ⟨p', hp', rfl⟩ | ⟨rfl, rfl⟩
    · split at hq
      · rename_i heq
        rcases List.mem_append.mp ((hsplices p').mem_iff.mp hq) with hq | hq
        · exact h.later hp' q hq
        · rw [List.mem_singleton.mp hq, ← heq]
          exact hid
      · exact h.later hp' q hq
    · exact absurd hq List.not_mem_nil
  sources := by
    intro i p hp
    rcases getElem?_modify_concat_cases hp with ⟨p', hp', rfl⟩ | ⟨rfl, rfl⟩
    · rw [← h.sources hp']
      split
      · exact hsource p'
      · rfl
    · rw [if_neg (Nat.not_lt.mpr h.count)]

/-- Splices keep the forest. -/
theorem Grows.forest (h : w.Grows v) (hw : w.Forest n) : v.Forest n := by
  induction h with
  | refl => exact hw
  | before _ hid ih => exact ih.splice hid (Place.splices_addPre _) fun _ => rfl
  | behind _ hid ih => exact ih.splice hid (Place.splices_addPost _) fun _ => rfl

end Plan

namespace Graph

variable {g : Graph} {n i : Nat} {id p q : OpId} {o : Operator}

/-! ## What hangs below an operator -/

/-- `q` is `p`, or hangs below it through any number of splices. -/
def Below (g : Graph) : OpId → OpId → Prop :=
  Relation.ReflTransGen fun p q => ∃ o, g.ops[p.index]? = some o ∧ q ∈ o.pre ++ o.post

/-- The part of the emission that an operator and what hangs below it take
up. -/
def stretch (g : Graph) (id : OpId) : List OpId :=
  match flatten g.ops g.ops.length id with
  | .ok ids => ids
  | .error _ => []

/-- What is spliced in around an operator. -/
def splicesOf (g : Graph) (id : OpId) : List OpId :=
  g.ops[id.index]?.elim [] fun o => o.pre ++ o.post

theorem flatMap_splicesOf (g : Graph) :
    ((List.range g.ops.length).map OpId.mk).flatMap g.splicesOf =
      g.ops.flatMap fun o => o.pre ++ o.post := by
  rw [List.flatMap_map, List.flatMap_def, List.flatMap_def]
  refine congrArg List.flatten (List.ext_getElem (by simp) fun i hi _ => ?_)
  have hlt : i < g.ops.length := by simpa using hi
  simp [splicesOf, List.getElem?_eq_getElem hlt]

/-- The position in the source of an operator, if it comes from there. -/
def sourceOf? (g : Graph) (id : OpId) : Option Nat := g.ops[id.index]?.bind Operator.index

end Graph

namespace Plan.Forest

open Relayout.Graph

variable {g : Graph} {n i : Nat} {id p q : OpId} {o : Operator} (h : g.plan.Forest n)

include h

theorem count_le : n ≤ g.ops.length := by
  have := h.count
  rwa [Graph.plan, List.length_map] at this

theorem created_eq : g.created = (List.range' n (g.ops.length - n)).map OpId.mk := by
  have := h.created
  rwa [Graph.plan, List.length_map] at this

theorem owned_ops : (g.ops.flatMap fun o => o.pre ++ o.post).Perm g.created := by
  have := h.owned
  rwa [Graph.plan, List.flatMap_map] at this

/-- All operators of the arena: the source, then what was synthesized. -/
theorem order_append_created : g.order ++ g.created = (List.range g.ops.length).map OpId.mk := by
  have horder : g.order = (List.range' 0 n).map OpId.mk :=
    h.order.trans (by rw [List.range_eq_range'])
  rw [horder, h.created_eq, ← List.map_append, List.range_eq_range']
  have happend := List.range'_append_1 (s := 0) (m := n) (n := g.ops.length - n)
  rw [Nat.zero_add] at happend
  rw [happend, Nat.add_sub_cancel' h.count_le]

theorem lt_of_mem (ho : g.ops[i]? = some o) (hp : p ∈ o.pre ++ o.post) : i < p.index :=
  h.later (i := i) (p := o.place) (by rw [Graph.plan, List.getElem?_map, ho, Option.map_some])
    p hp

theorem mem_created (ho : g.ops[i]? = some o) (hp : p ∈ o.pre ++ o.post) : p ∈ g.created :=
  h.owned_ops.mem_iff.mp (List.mem_flatMap.mpr ⟨o, List.mem_of_getElem? ho, hp⟩)

theorem bounds_of_mem (ho : g.ops[i]? = some o) (hp : p ∈ o.pre ++ o.post) :
    n ≤ p.index ∧ p.index < g.ops.length := by
  have hcreated := h.mem_created ho hp
  rw [h.created_eq] at hcreated
  obtain ⟨j, hj, rfl⟩ := List.mem_map.mp hcreated
  obtain ⟨hle, hlt⟩ := List.mem_range'_1.mp hj
  have := h.count_le
  exact ⟨hle, show j < g.ops.length by omega⟩

theorem sourceOf?_eq (hid : id.index < g.ops.length) :
    g.sourceOf? id = if id.index < n then some id.index else none := by
  have ho := List.getElem?_eq_getElem hid
  rw [Graph.sourceOf?, ho, Option.bind_some]
  exact h.sources (p := g.ops[id.index].place)
    (by rw [Graph.plan, List.getElem?_map, ho, Option.map_some])

theorem below_bounds (hbelow : g.Below p q) (hp : p.index < g.ops.length) :
    p.index ≤ q.index ∧ q.index < g.ops.length := by
  induction hbelow with
  | refl => exact ⟨Nat.le_refl _, hp⟩
  | tail _ hstep ih =>
      obtain ⟨o, ho, hq⟩ := hstep
      exact ⟨Nat.le_trans ih.1 (Nat.le_of_lt (h.lt_of_mem ho hq)), (h.bounds_of_mem ho hq).2⟩

/-! ## Flattening -/

/-- With fuel for the operators that are still to come, an operator has one
flattening, whatever the fuel. -/
theorem exists_flatten (hid : id.index < g.ops.length) :
    ∃ ids, ∀ fuel, g.ops.length ≤ id.index + fuel → flatten g.ops fuel id = .ok ids := by
  -- The operators below are younger, so there are fewer to come.
  induction hk : g.ops.length - id.index using Nat.strong_induction_on generalizing id with
  | _ k ih =>
      have ho := List.getElem?_eq_getElem hid
      generalize g.ops[id.index] = o at ho
      have hsplices : ∀ p, p ∈ o.pre ++ o.post → ∃ ids, ∀ fuel,
          g.ops.length ≤ p.index + fuel → flatten g.ops fuel p = .ok ids := by
        intro p hp
        have hlater := h.lt_of_mem ho hp
        have hbound := (h.bounds_of_mem ho hp).2
        exact ih (g.ops.length - p.index) (by omega) hbound rfl
      choose! ids hids using hsplices
      refine ⟨o.pre.flatMap ids ++ [id] ++ o.post.flatMap ids, fun fuel hfuel => ?_⟩
      cases fuel with
      | zero => omega
      | succ fuel =>
          have hok : ∀ p ∈ o.pre ++ o.post, flatten g.ops fuel p = .ok (ids p) := fun p hp =>
            hids p hp fuel (by have := h.lt_of_mem ho hp; omega)
          have hpre := mapM_ok_of_forall fun p hp => hok p (List.mem_append_left _ hp)
          have hpost := mapM_ok_of_forall fun p hp => hok p (List.mem_append_right _ hp)
          rw [flatten, entryAt_of_getElem? ho]
          simp only [bind, Except.bind, hpre, hpost, pure, Except.pure]
          rfl

theorem flatten_eq {fuel : Nat} (hid : id.index < g.ops.length)
    (hfuel : g.ops.length ≤ id.index + fuel) :
    flatten g.ops fuel id = .ok (g.stretch id) := by
  obtain ⟨ids, hids⟩ := h.exists_flatten hid
  rw [hids fuel hfuel, Graph.stretch, hids g.ops.length (Nat.le_add_left _ _)]

/-- The stretch of an operator: what is spliced in before it, itself, and what
is spliced in behind it. -/
theorem stretch_eq (ho : g.ops[id.index]? = some o) :
    g.stretch id = o.pre.flatMap g.stretch ++ [id] ++ o.post.flatMap g.stretch := by
  have hid := (List.getElem?_eq_some_iff.mp ho).1
  obtain ⟨fuel, hfuel⟩ : ∃ fuel, g.ops.length = fuel + 1 :=
    ⟨g.ops.length - 1, by omega⟩
  have hok : ∀ p ∈ o.pre ++ o.post, flatten g.ops fuel p = .ok (g.stretch p) := fun p hp =>
    h.flatten_eq (h.bounds_of_mem ho hp).2 (by have := h.lt_of_mem ho hp; omega)
  have hpre := mapM_ok_of_forall fun p hp => hok p (List.mem_append_left _ hp)
  have hpost := mapM_ok_of_forall fun p hp => hok p (List.mem_append_right _ hp)
  have hrun := h.flatten_eq hid (Nat.le_add_left _ _)
  rw [hfuel, flatten, entryAt_of_getElem? ho] at hrun
  simp only [bind, Except.bind, hpre, hpost, pure, Except.pure, Except.ok.injEq] at hrun
  exact hrun.symm

theorem order_lt (hp : p ∈ g.order) : p.index < n := by
  rw [show g.order = _ from h.order] at hp
  obtain ⟨i, hi, rfl⟩ := List.mem_map.mp hp
  exact List.mem_range.mp hi

theorem emissionOrder_eq : emissionOrder g = .ok (g.order.flatMap g.stretch) := by
  have hroots : g.order.mapM (flatten g.ops g.ops.length) = .ok (g.order.map g.stretch) :=
    mapM_ok_of_forall fun p hp =>
      h.flatten_eq (Nat.lt_of_lt_of_le (h.order_lt hp) h.count_le) (Nat.le_add_left _ _)
  rw [emissionOrder, hroots]
  rfl

theorem mem_stretch (hid : id.index < g.ops.length) : q ∈ g.stretch id ↔ g.Below id q := by
  constructor
  · induction hk : g.ops.length - id.index using Nat.strong_induction_on generalizing id with
    | _ k ih =>
        have ho := List.getElem?_eq_getElem hid
        generalize g.ops[id.index] = o at ho
        have hdown : ∀ p ∈ o.pre ++ o.post, q ∈ g.stretch p → g.Below id q := fun p hp hq => by
          have hlater := h.lt_of_mem ho hp
          have hbound := (h.bounds_of_mem ho hp).2
          exact .head ⟨o, ho, hp⟩ (ih (g.ops.length - p.index) (by omega) hbound rfl hq)
        rw [h.stretch_eq ho, List.mem_append, List.mem_append, List.mem_singleton]
        rintro ((hq | rfl) | hq)
        · obtain ⟨p, hp, hq⟩ := List.mem_flatMap.mp hq
          exact hdown p (List.mem_append_left _ hp) hq
        · exact .refl
        · obtain ⟨p, hp, hq⟩ := List.mem_flatMap.mp hq
          exact hdown p (List.mem_append_right _ hp) hq
  · intro hbelow
    induction hbelow using Relation.ReflTransGen.head_induction_on with
    | refl =>
        rw [h.stretch_eq (List.getElem?_eq_getElem hid)]
        simp
    | head hstep _ ih =>
        obtain ⟨o, ho, hp⟩ := hstep
        have hq := ih (h.bounds_of_mem ho hp).2
        rw [h.stretch_eq ho]
        rcases List.mem_append.mp hp with hp | hp
        · exact List.mem_append_left _ (List.mem_append_left _ (List.mem_flatMap.mpr ⟨_, hp, hq⟩))
        · exact List.mem_append_right _ (List.mem_flatMap.mpr ⟨_, hp, hq⟩)

/-- The stretch of an operator lies in one piece inside the stretch of any
operator that it hangs below. -/
theorem stretch_infix (hbelow : g.Below p q) (hp : p.index < g.ops.length) :
    g.stretch q <:+: g.stretch p := by
  induction hbelow using Relation.ReflTransGen.head_induction_on with
  | refl => exact List.infix_rfl
  | head hstep _ ih =>
      obtain ⟨o, ho, hq⟩ := hstep
      refine (ih (h.bounds_of_mem ho hq).2).trans ?_
      rw [h.stretch_eq ho]
      rcases List.mem_append.mp hq with hq | hq
      · exact (List.infix_of_mem_flatten (List.mem_map_of_mem hq)).trans
          ((List.prefix_append _ _).trans (List.prefix_append _ _)).isInfix
      · exact (List.infix_of_mem_flatten (List.mem_map_of_mem hq)).trans
          (List.suffix_append _ _).isInfix

/-! ## Every operator once -/

/-- Flattening every operator of the arena lists each of them once for itself,
and again with whatever it hangs below. -/
theorem flatMap_stretch_perm : ((List.range g.ops.length).map OpId.mk).flatMap g.stretch ~
    (List.range g.ops.length).map OpId.mk ++ g.created.flatMap g.stretch := by
  have hone : ∀ id ∈ (List.range g.ops.length).map OpId.mk,
      g.stretch id ~ [id] ++ (g.splicesOf id).flatMap g.stretch := by
    intro id hid
    obtain ⟨i, hi, rfl⟩ := List.mem_map.mp hid
    have ho := List.getElem?_eq_getElem (List.mem_range.mp hi)
    rw [h.stretch_eq ho, splicesOf, ho, Option.elim_some, List.flatMap_append, List.append_assoc]
    exact List.perm_middle
  calc ((List.range g.ops.length).map OpId.mk).flatMap g.stretch
      ~ ((List.range g.ops.length).map OpId.mk).flatMap fun id =>
          [id] ++ (g.splicesOf id).flatMap g.stretch := List.Perm.flatMap_left _ hone
    _ ~ ((List.range g.ops.length).map OpId.mk).flatMap (fun id => [id]) ++
          ((List.range g.ops.length).map OpId.mk).flatMap fun id =>
            (g.splicesOf id).flatMap g.stretch := (List.flatMap_append_perm _ _ _).symm
    _ = (List.range g.ops.length).map OpId.mk ++
          (g.ops.flatMap fun o => o.pre ++ o.post).flatMap g.stretch := by
        rw [List.flatMap_singleton', ← List.flatMap_assoc, flatMap_splicesOf]
    _ ~ (List.range g.ops.length).map OpId.mk ++ g.created.flatMap g.stretch :=
        (h.owned_ops.flatMap_right _).append_left _

theorem emission_perm :
    g.order.flatMap g.stretch ~ (List.range g.ops.length).map OpId.mk := by
  have hall := h.flatMap_stretch_perm
  rw [← h.order_append_created, List.flatMap_append] at hall
  exact (List.perm_append_right_iff _).mp (hall.trans (by rw [h.order_append_created]))

/-- What is spliced in comes from nowhere in the source. -/
theorem filterMap_sourceOf?_splices {ps : List OpId} (ho : g.ops[i]? = some o)
    (hps : ∀ p ∈ ps, p ∈ o.pre ++ o.post) :
    (ps.flatMap g.stretch).filterMap g.sourceOf? = [] := by
  refine List.filterMap_eq_nil_iff.mpr fun q hq => ?_
  obtain ⟨p, hp, hq⟩ := List.mem_flatMap.mp hq
  obtain ⟨hle, hlt⟩ := h.bounds_of_mem ho (hps p hp)
  obtain ⟨hpq, hqlt⟩ := h.below_bounds ((h.mem_stretch hlt).mp hq) hlt
  rw [h.sourceOf?_eq hqlt, if_neg (by omega)]

/-- The operators of the source are emitted in source order. -/
theorem filterMap_sourceOf?_emission :
    (g.order.flatMap g.stretch).filterMap g.sourceOf? = List.range n := by
  have hroot : ∀ i ∈ List.range n, (g.stretch ⟨i⟩).filterMap g.sourceOf? = [i] := by
    intro i hi
    have hi := List.mem_range.mp hi
    have hlt : i < g.ops.length := Nat.lt_of_lt_of_le hi h.count_le
    have ho := List.getElem?_eq_getElem hlt
    have hself : g.sourceOf? ⟨i⟩ = some i := by rw [h.sourceOf?_eq hlt, if_pos hi]
    rw [h.stretch_eq ho, List.filterMap_append, List.filterMap_append,
      h.filterMap_sourceOf?_splices ho fun p hp => List.mem_append_left _ hp,
      h.filterMap_sourceOf?_splices ho fun p hp => List.mem_append_right _ hp,
      List.filterMap_cons_some hself]
    rfl
  rw [show g.order = _ from h.order, List.flatMap_map, List.filterMap_flatMap,
    List.flatMap_congr hroot, List.flatMap_singleton']

/-- Every operator is emitted right between what hangs below its own
splices. -/
theorem exists_split (ho : g.ops[id.index]? = some o) : ∃ ahead rest,
    g.order.flatMap g.stretch =
      ahead ++ (o.pre.flatMap g.stretch ++ [id] ++ o.post.flatMap g.stretch) ++ rest := by
  have hid := (List.getElem?_eq_some_iff.mp ho).1
  have hmem : id ∈ g.order.flatMap g.stretch :=
    h.emission_perm.mem_iff.mpr (List.mem_map.mpr ⟨id.index, List.mem_range.mpr hid, rfl⟩)
  obtain ⟨r, hr, hmem⟩ := List.mem_flatMap.mp hmem
  have hrlt := Nat.lt_of_lt_of_le (h.order_lt hr) h.count_le
  have hinside := (h.stretch_infix ((h.mem_stretch hrlt).mp hmem) hrlt).trans
    (List.infix_of_mem_flatten (List.mem_map_of_mem hr))
  obtain ⟨ahead, rest, heq⟩ := hinside
  rw [← List.flatMap_def] at heq
  exact ⟨ahead, rest, by rw [← heq, h.stretch_eq ho]⟩

theorem mem_flatMap_stretch {ps : List OpId} (ho : g.ops[i]? = some o)
    (hps : ∀ p ∈ ps, p ∈ o.pre ++ o.post) :
    q ∈ ps.flatMap g.stretch ↔ ∃ p ∈ ps, g.Below p q := by
  rw [List.mem_flatMap]
  constructor
  · rintro ⟨p, hp, hq⟩
    exact ⟨p, hp, (h.mem_stretch (h.bounds_of_mem ho (hps p hp)).2).mp hq⟩
  · rintro ⟨p, hp, hq⟩
    exact ⟨p, hp, (h.mem_stretch (h.bounds_of_mem ho (hps p hp)).2).mpr hq⟩

end Plan.Forest

end Relayout
