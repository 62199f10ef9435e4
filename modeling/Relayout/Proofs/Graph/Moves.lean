/-
# Moving all tensors

The first half of adapting a graph moves every tensor that has a layout and was
not moved before.  The order does not matter, since no move looks at another
tensor: the pass is `List.map`.  It breaks an invariant exactly if the layout of
a tensor that waits moves something and has another rank than its tensor, or data
that does not fill its shape.  In a graph that was read all data does.
-/
import Relayout.Graph.Adaptation
import Relayout.Proofs.Graph.Requests

namespace Relayout

/-- A broken invariant that there is a reason for. -/
def Fault.Broken (reason : Prop) (e : Fault) : Prop := (∃ v, e = .invariant v) ∧ reason

theorem Fault.Broken.imp {p q : Prop} {e : Fault} (h : Fault.Broken p e) (hpq : p → q) :
    Fault.Broken q e := ⟨h.1, hpq h.2⟩

/-- A layout can be applied: it moves nothing, or has the rank of its tensor. -/
def Tensor.Movable (t : Tensor) : Prop :=
  ∀ l, t.layout = some l → l.isMatch = true ∨ t.rank = l.rank

/-- The data can be moved along as well: it fills the shape. -/
def Tensor.Appliable (t : Tensor) : Prop :=
  ∀ l, t.layout = some l → l.isMatch = true ∨ t.rank = l.rank ∧ t.Filled

theorem Tensor.Movable.appliable {t : Tensor} (h : t.Movable) (hfilled : t.Filled) : t.Appliable :=
  fun l hl => (h l hl).imp_right fun hrank => ⟨hrank, hfilled⟩

namespace Graph

variable {g : Graph}

theorem isPending_eq_true {t : Tensor} :
    isPending t = true ↔ t.status = .parsed ∧ ∃ l, t.layout = some l := by
  rw [isPending, Bool.and_eq_true, beq_iff_eq, Option.isSome_iff_exists, and_comm]

theorem mem_pending {i : Nat} :
    ⟨i⟩ ∈ pending g ↔ ∃ t, g.tensors[i]? = some t ∧ isPending t = true := by
  simp only [pending, List.mem_map, List.mem_filter, Prod.exists, List.mem_zipIdx_iff_getElem?,
    TensorId.mk.injEq]
  constructor
  · rintro ⟨t, _, ⟨ht, hp⟩, rfl⟩
    exact ⟨t, ht, hp⟩
  · rintro ⟨t, ht, hp⟩
    exact ⟨t, i, ⟨ht, hp⟩, rfl⟩

theorem nodup_pending (g : Graph) : (pending g).Nodup := by
  have hpositions : (g.tensors.zipIdx.map Prod.snd).Nodup := by
    rw [List.zipIdx_map_snd]
    exact List.nodup_range'
  have hfilter : ((g.tensors.zipIdx.filter fun e => isPending e.1).map Prod.snd).Nodup :=
    hpositions.sublist (List.filter_sublist.map _)
  have hmap : pending g =
      ((g.tensors.zipIdx.filter fun e => isPending e.1).map Prod.snd).map TensorId.mk := by
    rw [List.map_map]
    rfl
  rw [hmap]
  exact hfilter.map fun _ _ h => TensorId.mk.inj h

/-- A graph some of whose tensors have been moved. -/
def movedSome (g : Graph) (done : List TensorId) : Graph :=
  { g with tensors := g.tensors.zipIdx.map fun (t, i) => if ⟨i⟩ ∈ done then t.moved else t }

/-- A graph all of whose tensors have been moved. -/
def moved (g : Graph) : Graph := { g with tensors := g.tensors.map Tensor.moved }

theorem names_moved (g : Graph) :
    g.moved.tensors.map Tensor.name = g.tensors.map Tensor.name := by
  rw [moved, List.map_map]
  exact List.map_congr_left fun t _ => t.moved_name

theorem Named.moved (h : g.Named) : g.moved.Named := h.of_names (names_moved g) rfl

theorem getElem?_movedSome (done : List TensorId) {i : Nat} :
    (g.movedSome done).tensors[i]? =
      g.tensors[i]?.map fun t => if ⟨i⟩ ∈ done then t.moved else t := by
  simp [movedSome, List.getElem?_zipIdx, Option.map_map, Function.comp_def]

/-- A graph whose waiting tensors have been moved. -/
def movedPending (g : Graph) : Graph :=
  { g with tensors := g.tensors.map fun t => if isPending t then t.moved else t }

theorem movedSome_pending (g : Graph) : g.movedSome (pending g) = g.movedPending := by
  refine congrArg (fun ts => { g with tensors := ts }) (List.ext_getElem? fun i => ?_)
  have hi := getElem?_movedSome (g := g) (pending g) (i := i)
  rw [movedSome] at hi
  rw [hi, List.getElem?_map]
  cases ht : g.tensors[i]? with
  | none => rfl
  | some t =>
      have hiff : (⟨i⟩ ∈ pending g) ↔ isPending t = true := by
        rw [mem_pending]
        refine ⟨?_, fun hp => ⟨t, ht, hp⟩⟩
        rintro ⟨u, hu, hp⟩
        rwa [Option.some.inj (ht.symm.trans hu)]
      rw [Option.map_some, Option.map_some]
      simp only [hiff]

/-- In a graph that was read, all tensors with a layout wait. -/
theorem movedPending_of_parsed (h : ∀ t ∈ g.tensors, t.status = .parsed) :
    g.movedPending = g.moved := by
  refine congrArg (fun ts => { g with tensors := ts }) (List.map_congr_left fun t ht => ?_)
  by_cases hp : isPending t = true
  · rw [if_pos hp]
  · rw [if_neg hp, Tensor.moved_of_layout_none]
    simpa [isPending, h t ht] using hp

/-- One more tensor is moved. -/
theorem movedSome_concat {done : List TensorId} {i : Nat} {t : Tensor}
    (ht : g.tensors[i]? = some t) :
    { g.movedSome done with tensors := (g.movedSome done).tensors.modify i fun _ => t.moved } =
      g.movedSome (done ++ [⟨i⟩]) := by
  refine congrArg (fun ts => { g with tensors := ts }) (List.ext_getElem? fun j => ?_)
  have hj := getElem?_movedSome (g := g) (done ++ [⟨i⟩]) (i := j)
  rw [movedSome] at hj
  rw [List.getElem?_modify, getElem?_movedSome, hj]
  by_cases hij : i = j
  · subst hij
    simp [ht]
  · cases g.tensors[j]? <;> simp [hij, Ne.symm hij]

/-- Moving one tensor more of those that wait. -/
theorem moveNext_ends {done : List TensorId} {i : Nat} {t : Tensor}
    (ht : g.tensors[i]? = some t) (hp : isPending t = true) (hfresh : ⟨i⟩ ∉ done) :
    Step.Ends (Fault.Broken (∃ t ∈ g.tensors, isPending t = true ∧ ¬t.Appliable))
      (fun _ g' => g' = g.movedSome (done ++ [⟨i⟩]) ∧ t.Appliable)
      (updateTensor ⟨i⟩ Tensor.transform (g.movedSome done)) := by
  obtain ⟨hparsed, l, hl⟩ := isPending_eq_true.mp hp
  have ht' : (g.movedSome done).tensors[i]? = some t := by
    rw [getElem?_movedSome, ht, Option.map_some, if_neg hfresh]
  by_cases happly : l.isMatch = true ∨ t.rank = l.rank ∧ t.Filled
  · rw [run_updateTensor (f := fun _ => t.moved) ht'
      (Tensor.transform_eq_moved hparsed hl happly)]
    refine ⟨movedSome_concat ht, fun l' hl' => ?_⟩
    rw [hl] at hl'
    cases hl'
    exact happly
  · -- the layout cannot be applied
    have hm : l.isMatch = false := by simpa using fun h => happly (Or.inl h)
    obtain ⟨v, hv⟩ := Tensor.transform_of_not_movable hparsed hl hm fun h => happly (Or.inr h)
    obtain ⟨g', hrun⟩ := run_updateTensor_error (g := g.movedSome done) ht' hv
    rw [hrun]
    exact ⟨⟨v, rfl⟩, t, List.mem_of_getElem? ht, hp, fun h => happly (h l hl)⟩

/-- Moving all tensors that wait. -/
theorem moveWaiting_ends (g : Graph) :
    Step.Ends (Fault.Broken (∃ t ∈ g.tensors, isPending t = true ∧ ¬t.Appliable))
      (fun _ g' => g' = g.movedPending ∧ ∀ t ∈ g.tensors, isPending t = true → t.Appliable)
      ((pending g).forM (fun id => updateTensor id Tensor.transform) g) := by
  refine Step.Ends.mono (Step.Ends.forM
    (I := fun done g' => g' = g.movedSome done ∧
      ∀ t i, ⟨i⟩ ∈ done → g.tensors[i]? = some t → t.Appliable) ?_ ?_) ?_
  · refine ⟨?_, by simp⟩
    simp [movedSome, List.zipIdx_map_fst]
  · rintro done ⟨i⟩ rest _ hmembers ⟨rfl, hdone⟩
    obtain ⟨t, ht, hp⟩ := mem_pending.mp (show ⟨i⟩ ∈ pending g by rw [hmembers]; simp)
    have hfresh : ⟨i⟩ ∉ done := fun hmem => by
      have := nodup_pending g
      rw [hmembers] at this
      exact (List.nodup_append.mp this).2.2 _ hmem _ List.mem_cons_self rfl
    refine (moveNext_ends ht hp hfresh).mono ?_
    rintro _ _ ⟨rfl, happly⟩
    refine ⟨rfl, fun u j hj hu => ?_⟩
    rcases List.mem_append.mp hj with hj | hj
    · exact hdone u j hj hu
    · cases List.mem_singleton.mp hj
      rw [ht] at hu
      cases hu
      exact happly
  · rintro _ g' ⟨rfl, hdone⟩
    refine ⟨movedSome_pending g, fun t ht hp => ?_⟩
    obtain ⟨i, hi⟩ := List.getElem?_of_mem ht
    exact hdone t i (mem_pending.mpr ⟨t, hi, hp⟩) hi

/-- Moving the tensors of a graph that was read. -/
theorem movePending_ends (hparsed : ∀ t ∈ g.tensors, t.status = .parsed)
    (hfilled : ∀ t ∈ g.tensors, t.Filled) :
    Step.Ends (Fault.Broken (∃ t ∈ g.tensors, ¬t.Movable))
      (fun _ g' => g' = g.moved ∧ ∀ t ∈ g.tensors, t.Movable)
      ((pending g).forM (fun id => updateTensor id Tensor.transform) g) := by
  refine ((moveWaiting_ends g).weaken fun e he => he.imp ?_).mono ?_
  · rintro ⟨t, ht, -, hnot⟩
    exact ⟨t, ht, fun hm => hnot (hm.appliable (hfilled t ht))⟩
  · rintro _ _ ⟨rfl, happly⟩
    refine ⟨movedPending_of_parsed hparsed, fun t ht l hl => ?_⟩
    have hp : isPending t = true := isPending_eq_true.mpr ⟨hparsed t ht, l, hl⟩
    exact (happly t ht hp l hl).imp_right And.left

end Graph

end Relayout
