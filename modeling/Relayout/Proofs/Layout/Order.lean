/-
# Moves that leave every buffer alone

A layout can change a shape and still leave what a buffer of that shape holds
where it is: an axis of extent one has only the index zero, and may go
anywhere.  `KeepsOrder` says that the other axes come in the same order on both
sides, and `transposed_eq_self_iff` that this is exactly when no buffer changes.

One direction drops the axes of extent one from both sides.  The other one looks
at the neighbours of the origin: the step along a wide axis is the same on both
sides, and steps decrease along the axes of a shape, so they order the axes.
-/
import Relayout.Proofs.Layout.Transpose

namespace Relayout

/-- The labels whose axes hold more or less than one index. -/
def wideLabels (labels : List Char) (f : Char → Nat) : List Char :=
  labels.filter fun label => f label ≠ 1

/-- The multi-index next to the origin along one axis. -/
def unitIndex (axis label : Char) : Nat := if label = axis then 1 else 0

variable {labels : List Char} {f i : Char → Nat} {axis label : Char}

theorem mem_wideLabels : label ∈ wideLabels labels f ↔ label ∈ labels ∧ f label ≠ 1 := by
  simp [wideLabels]

theorem nodup_wideLabels (h : labels.Nodup) (f : Char → Nat) : (wideLabels labels f).Nodup :=
  h.filter _

theorem wideLabels_cons_of_eq (h : f axis = 1) (labels : List Char) :
    wideLabels (axis :: labels) f = wideLabels labels f := by
  simp [wideLabels, h]

theorem wideLabels_cons_of_ne (h : f axis ≠ 1) (labels : List Char) :
    wideLabels (axis :: labels) f = axis :: wideLabels labels f := by
  simp [wideLabels, h]

theorem elementCount_wideLabels (labels : List Char) (f : Char → Nat) :
    elementCount ((wideLabels labels f).map f) = elementCount (labels.map f) := by
  induction labels with
  | nil => rfl
  | cons axis labels ih =>
      by_cases h : f axis = 1
      · rw [wideLabels_cons_of_eq h, ih, List.map_cons, elementCount_cons, h, Nat.one_mul]
      · rw [wideLabels_cons_of_ne h, List.map_cons, List.map_cons, elementCount_cons,
          elementCount_cons, ih]

/-- Axes of extent one do not tell positions apart. -/
theorem position_wideLabels (h : ∀ label ∈ labels, i label < f label) :
    position ((wideLabels labels f).map f) ((wideLabels labels f).map i) =
      position (labels.map f) (labels.map i) := by
  induction labels with
  | nil => rfl
  | cons axis labels ih =>
      have ih := ih fun label hl => h label (List.mem_cons_of_mem _ hl)
      have hhead := h axis List.mem_cons_self
      by_cases hone : f axis = 1
      · have hzero : i axis = 0 := by omega
        rw [wideLabels_cons_of_eq hone, ih, List.map_cons, List.map_cons, position_cons, hzero,
          Nat.zero_mul, Nat.zero_add]
      · rw [wideLabels_cons_of_ne hone, List.map_cons, List.map_cons, List.map_cons, List.map_cons,
          position_cons, position_cons, ih, elementCount_wideLabels]

/-! ## Steps along an axis -/

theorem position_of_zero (h : ∀ label ∈ labels, i label = 0) :
    position (labels.map f) (labels.map i) = 0 := by
  induction labels with
  | nil => rfl
  | cons axis labels ih =>
      rw [List.map_cons, List.map_cons, position_cons, h axis List.mem_cons_self, Nat.zero_mul,
        ih fun label hl => h label (List.mem_cons_of_mem _ hl)]

theorem unitIndex_lt (hwide : ∀ label ∈ labels, 0 < f label) (haxis : 1 < f axis) :
    ∀ label ∈ labels, unitIndex axis label < f label := by
  intro label hl
  unfold unitIndex
  split
  · rename_i heq
    exact heq ▸ haxis
  · exact hwide label hl

/-- The step along an axis is longer than those along the axes behind it. -/
theorem pairwise_steps (hn : labels.Nodup) (hwide : ∀ label ∈ labels, 1 < f label) :
    labels.Pairwise fun a b => position (labels.map f) (labels.map (unitIndex b)) <
      position (labels.map f) (labels.map (unitIndex a)) := by
  induction labels with
  | nil => exact .nil
  | cons axis labels ih =>
      obtain ⟨hfresh, hn⟩ := List.nodup_cons.mp hn
      have hwide' : ∀ label ∈ labels, 1 < f label := fun label hl =>
        hwide label (List.mem_cons_of_mem _ hl)
      have hself : position ((axis :: labels).map f) ((axis :: labels).map (unitIndex axis)) =
          elementCount (labels.map f) := by
        have hzero : ∀ label ∈ labels, unitIndex axis label = 0 := fun label hl =>
          if_neg fun heq : label = axis => hfresh (heq ▸ hl)
        rw [List.map_cons, List.map_cons, position_cons, position_of_zero hzero, unitIndex,
          if_pos rfl, Nat.one_mul, Nat.add_zero]
      have hbehind : ∀ b ∈ labels, position ((axis :: labels).map f)
          ((axis :: labels).map (unitIndex b)) =
            position (labels.map f) (labels.map (unitIndex b)) := fun b hb => by
        have hne : axis ≠ b := fun heq => hfresh (heq ▸ hb)
        rw [List.map_cons, List.map_cons, position_cons, unitIndex, if_neg hne, Nat.zero_mul,
          Nat.zero_add]
      refine List.pairwise_cons.mpr ⟨fun b hb => ?_, ?_⟩
      · rw [hself, hbehind b hb]
        exact position_lt (inside_map (unitIndex_lt
          (fun label hl => Nat.zero_lt_of_lt (hwide' label hl)) (hwide' b hb)))
      · refine (ih hn hwide').imp_of_mem fun {a b} ha hb hlt => ?_
        rwa [hbehind a ha, hbehind b hb]

namespace Layout

variable {l : Layout} {shape : List Nat} {α : Type}

/-- The axes of a shape that hold more or less than one index come in the same
order on both sides. -/
def KeepsOrder (l : Layout) (shape : List Nat) : Prop :=
  wideLabels l.source (entryOf l.source shape) = wideLabels l.target (entryOf l.source shape)

instance (l : Layout) (shape : List Nat) : Decidable (l.KeepsOrder shape) :=
  inferInstanceAs (Decidable (_ = _))

theorem wideLabels_congr {f' : Char → Nat} (h : ∀ label ∈ labels, f label = f' label) :
    wideLabels labels f = wideLabels labels f' :=
  List.filter_congr fun label hl => by rw [h label hl]

theorem keepsOrder_map (l : Layout) (f : Char → Nat) :
    l.KeepsOrder (l.source.map f) ↔ wideLabels l.source f = wideLabels l.target f := by
  have hentry : ∀ label ∈ l.source, entryOf l.source (l.source.map f) label = f label :=
    fun label hl => entryOf_map f hl
  rw [KeepsOrder, wideLabels_congr hentry,
    wideLabels_congr fun label hl => hentry label (l.relabels.mem_iff.mp hl)]

/-- Where the element at a multi-index in target order comes from. -/
theorem origin_position_map (l : Layout) (h : ∀ label ∈ l.source, i label < f label) :
    origin l.perm (l.source.map f) (position (l.target.map f) (l.target.map i)) =
      position (l.source.map f) (l.source.map i) := by
  rw [l.origin_perm, multiIndex_position
    (inside_map fun label hl => h label (l.relabels.mem_iff.mp hl))]
  congr 1
  exact List.map_congr_left fun label hl => entryOf_map i (l.relabels.mem_iff.mpr hl)

/-- Without the axes of extent one nothing is left to move. -/
theorem origin_eq_self (l : Layout) (h : wideLabels l.source f = wideLabels l.target f) {n : Nat}
    (hn : n < elementCount (l.source.map f)) : origin l.perm (l.source.map f) n = n := by
  have hcount : elementCount (l.target.map f) = elementCount (l.source.map f) :=
    elementCount_perm (l.relabels.map f)
  have hinside := l.entryOf_multiIndex_lt hn
  rw [l.origin_perm, ← position_wideLabels hinside, h,
    position_wideLabels fun label hl => hinside label (l.relabels.mem_iff.mp hl),
    map_entryOf l.nodup (by simp), position_multiIndex (hcount ▸ hn)]

/-- If nothing moves, the steps along wide axes agree, and order the axes. -/
theorem wideLabels_eq_of_origin (l : Layout) (hpos : ∀ label ∈ l.source, 0 < f label)
    (h : ∀ n < elementCount (l.source.map f), origin l.perm (l.source.map f) n = n) :
    wideLabels l.source f = wideLabels l.target f := by
  have hwide : ∀ label ∈ wideLabels l.source f, 1 < f label := fun label hl => by
    obtain ⟨hmem, hne⟩ := mem_wideLabels.mp hl
    have := hpos label hmem
    omega
  have hperm : (wideLabels l.target f).Perm (wideLabels l.source f) := l.relabels.filter _
  have hcount : elementCount (l.target.map f) = elementCount (l.source.map f) :=
    elementCount_perm (l.relabels.map f)
  have hstep : ∀ axis ∈ wideLabels l.source f,
      position ((wideLabels l.source f).map f) ((wideLabels l.source f).map (unitIndex axis)) =
        position ((wideLabels l.target f).map f)
          ((wideLabels l.target f).map (unitIndex axis)) := fun axis haxis => by
    have hlt : ∀ label ∈ l.source, unitIndex axis label < f label :=
      unitIndex_lt hpos (hwide axis haxis)
    have hlt' : ∀ label ∈ l.target, unitIndex axis label < f label := fun label hl =>
      hlt label (l.relabels.mem_iff.mp hl)
    rw [position_wideLabels hlt, position_wideLabels hlt', ← l.origin_position_map hlt,
      h _ (hcount ▸ position_lt (inside_map hlt'))]
  have hsource := pairwise_steps (nodup_wideLabels l.source_nodup f) hwide
  have htarget := pairwise_steps (nodup_wideLabels l.nodup f)
    fun label hl => hwide label (hperm.mem_iff.mp hl)
  refine List.Perm.eq_of_pairwise ?_ hsource (htarget.imp_of_mem fun {a b} ha hb hlt => ?_)
    hperm.symm
  · intro a b _ _ hab hba
    exact absurd (hab.trans hba) (Nat.lt_irrefl _)
  · rwa [hstep a (hperm.mem_iff.mp ha), hstep b (hperm.mem_iff.mp hb)]

/-- Moving leaves all buffers of a shape alone exactly if there is nothing in
them, or the wide axes keep their order. -/
theorem transposed_eq_self_iff {x y : α} (hne : x ≠ y) (hshape : shape.length = l.rank) :
    (∀ data : List α, data.length = elementCount shape →
        transposed l.perm shape data = data) ↔
      elementCount shape = 0 ∨ l.KeepsOrder shape := by
  obtain ⟨f, rfl⟩ : ∃ f, l.source.map f = shape :=
    ⟨_, map_entryOf l.source_nodup (hshape.trans l.length_source.symm)⟩
  rw [l.keepsOrder_map]
  constructor
  · intro h
    rcases Nat.eq_zero_or_pos (elementCount (l.source.map f)) with hzero | hcount
    · exact Or.inl hzero
    refine Or.inr (l.wideLabels_eq_of_origin (fun label hl =>
      elementCount_pos.mp hcount _ (List.mem_map_of_mem hl)) fun n hn => ?_)
    -- the buffer that tells element `n` from all others
    have hlength : ((List.range (elementCount (l.source.map f))).map
        fun m => if m = n then x else y).length = elementCount (l.source.map f) := by simp
    have hread := getElem?_transposed_perm hshape hlength hn
    rw [h _ hlength, List.getElem?_map, List.getElem?_map, List.getElem?_range hn,
      List.getElem?_range (l.origin_lt hshape hn), Option.map_some, Option.map_some,
      if_pos rfl] at hread
    by_contra hmoved
    rw [if_neg hmoved] at hread
    exact hne (Option.some.inj hread)
  · intro h data hdata
    refine List.ext_getElem? fun n => ?_
    by_cases hn : n < elementCount (l.source.map f)
    · have hkeeps := h.resolve_left (by omega)
      rw [getElem?_transposed_perm hshape hdata hn, l.origin_eq_self hkeeps hn]
    · have hlength := length_transposed_perm hshape hdata
      rw [List.getElem?_eq_none (by omega), List.getElem?_eq_none (by omega)]

end Layout

end Relayout
