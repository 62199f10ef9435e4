/-
# Moving a buffer is transposing it

`transposed` says what a transpose is: the result holds, at the multi-index `j`
of the permuted shape, the element that the source holds at the multi-index
with `j[a]` on axis `perm[a]`.  The walk of `Layout.permuteBuffer` computes it
(`permuteBuffer_eq`).

A layout permutes by labels, so a multi-index is a function of the labels, read
off in the order of the source or of the target.  With this the laws of moving
come down to `multiIndex_position`: two moves are one (`transposed_andThen`), a
layout between equal orders moves nothing (`transposed_of_isMatch`), and so
moving back undoes a move (`transposed_inverse`).
-/
import Mathlib.Data.List.Nodup
import Mathlib.Algebra.BigOperators.Group.List.Basic
import Mathlib.Algebra.Ring.Nat
import Relayout.Proofs.Layout.Walk

namespace Relayout

variable {α β : Type}

/-! ## Transposes -/

/-- A shape moved by a permutation of its axes. -/
def permutedDims (perm dims : List Nat) : List Nat := perm.map fun axis => dims.getD axis 0

/-- Where the element at a position of the transpose comes from. -/
def origin (perm dims : List Nat) (n : Nat) : Nat :=
  position dims <| (List.range dims.length).map fun axis =>
    (multiIndex (permutedDims perm dims) n).getD (perm.idxOf axis) 0

/-- The transpose of a dense row-major buffer. -/
def transposed (perm dims : List Nat) (data : List α) : List α :=
  (List.range (elementCount dims)).filterMap fun n => data[origin perm dims n]?

/-- A transpose does not look at the elements. -/
theorem transposed_map (f : α → β) (perm dims : List Nat) (data : List α) :
    transposed perm dims (data.map f) = (transposed perm dims data).map f := by
  simp only [transposed, List.map_filterMap, List.getElem?_map]

/-- A transpose, element by element. -/
theorem transposed_eq_map {perm dims : List Nat} {data : List α} (f : Nat → α)
    (hf : ∀ n, n < elementCount dims → data[origin perm dims n]? = some (f n)) :
    transposed perm dims data = (List.range (elementCount dims)).map f := by
  rw [transposed, ← List.filterMap_eq_map]
  exact List.filterMap_congr fun n hn => hf n (List.mem_range.mp hn)

theorem getElem?_transposed {perm dims : List Nat} {data : List α}
    (h : ∀ n, n < elementCount dims → origin perm dims n < data.length) {n : Nat}
    (hn : n < elementCount dims) :
    (transposed perm dims data)[n]? = data[origin perm dims n]? := by
  have hf : ∀ n, n < elementCount dims → data[origin perm dims n]? =
      some (data[origin perm dims n]?.getD (data.get ⟨_, h 0 (by omega)⟩)) := by
    intro n hn
    rw [List.getElem?_eq_getElem (h n hn)]
    rfl
  rw [transposed_eq_map _ hf, hf n hn]
  simp [hn]

theorem length_transposed {perm dims : List Nat} {data : List α}
    (h : ∀ n, n < elementCount dims → origin perm dims n < data.length) :
    (transposed perm dims data).length = elementCount dims := by
  rw [transposed, List.length_filterMap_eq_countP, List.countP_eq_length.mpr]
  · simp
  · intro n hn
    simp [h n (List.mem_range.mp hn)]

/-! ## Labels

A list with as many entries as there are labels is a function of the labels,
and comes back when the labels are read off in the same order. -/

section Labels

variable {labels others : List Char}

/-- The entry that belongs to a label. -/
def entryOf (labels : List Char) (entries : List Nat) (label : Char) : Nat :=
  entries.getD (labels.idxOf label) 0

theorem map_entryOf (hn : labels.Nodup) {entries : List Nat}
    (h : entries.length = labels.length) : labels.map (entryOf labels entries) = entries := by
  apply List.ext_getElem
  · simp [h]
  · intro i hi hi'
    have hl : i < labels.length := by simpa using hi
    simp only [List.getElem_map, entryOf, hn.idxOf_getElem i hl]
    simp [hi']

theorem entryOf_map (f : Char → Nat) {label : Char} (h : label ∈ labels) :
    entryOf labels (labels.map f) label = f label := by
  simp [entryOf, List.getD_eq_getElem?_getD, List.getElem?_idxOf h]

theorem dot_map (f g : Char → Nat) :
    dot (labels.map f) (labels.map g) = (labels.map fun label => f label * g label).sum := by
  induction labels with
  | nil => rfl
  | cons label labels ih => simp [dot, ih]

/-- A weighted sum does not depend on the order of the axes. -/
theorem dot_map_perm (h : labels.Perm others) (f g : Char → Nat) :
    dot (labels.map f) (labels.map g) = dot (others.map f) (others.map g) := by
  rw [dot_map, dot_map]
  exact (h.map _).sum_eq

theorem inside_map {f g : Char → Nat} (h : ∀ label ∈ labels, f label < g label) :
    Inside (labels.map f) (labels.map g) := by
  induction labels with
  | nil => trivial
  | cons label labels ih =>
      exact ⟨h label List.mem_cons_self, ih fun l hl => h l (List.mem_cons_of_mem _ hl)⟩

theorem lt_of_inside_map {f g : Char → Nat} (h : Inside (labels.map f) (labels.map g)) :
    ∀ label ∈ labels, f label < g label := by
  induction labels with
  | nil => intro _ hl; cases hl
  | cons label labels ih =>
      intro l hl
      rcases List.mem_cons.mp hl with rfl | hl
      · exact h.1
      · exact ih h.2 l hl

end Labels

namespace Layout

/-! ## Layouts as functions of the labels -/

theorem source_nodup (l : Layout) : l.source.Nodup := l.relabels.nodup l.nodup

theorem length_source (l : Layout) : l.source.length = l.rank := l.relabels.length_eq.symm

@[simp] theorem length_perm (l : Layout) : l.perm.length = l.rank := by simp [perm, rank]

@[simp] theorem rank_inverse (l : Layout) : l.inverse.rank = l.rank := l.length_source

@[simp] theorem inverse_inverse (l : Layout) : l.inverse.inverse = l := rfl

theorem idxOf_source_lt (l : Layout) {label : Char} (h : label ∈ l.target) :
    l.source.idxOf label < l.rank := by
  rw [← l.length_source]
  exact List.idxOf_lt_length_of_mem (l.relabels.mem_iff.mp h)

/-- A permuted shape lists the entries of the labels in target order. -/
theorem permutedDims_perm (l : Layout) (shape : List Nat) :
    permutedDims l.perm shape = l.target.map (entryOf l.source shape) := by
  simp [permutedDims, perm, Function.comp_def, entryOf]

theorem permute_eq_map {shape : List α} (l : Layout) (h : shape.length = l.rank)
    {f : Char → α} (hf : l.source.map f = shape) :
    l.permute shape = .ok (l.target.map f) := by
  have hentry : ∀ label ∈ l.target, entryAt shape (l.source.idxOf label) = .ok (f label) := by
    intro label hl
    rw [← hf, entryAt, List.getElem?_map, List.getElem?_idxOf (l.relabels.mem_iff.mp hl)]
    rfl
  have hall : ∀ {labels : List Char}, (∀ label ∈ labels, label ∈ l.target) →
      (labels.map fun label => l.source.idxOf label).mapM (entryAt shape) =
        .ok (labels.map f) := by
    intro labels
    induction labels with
    | nil => intro _; rfl
    | cons label labels ih =>
        intro hsub
        rw [List.map_cons, List.mapM_cons, hentry label (hsub label List.mem_cons_self),
          ih fun x hx => hsub x (List.mem_cons_of_mem _ hx)]
        rfl
  rw [permute, if_pos h, perm]
  exact hall fun _ h => h

/-- A shape of the right rank can be moved. -/
theorem permute_eq {shape : List Nat} (l : Layout) (h : shape.length = l.rank) :
    l.permute shape = .ok (permutedDims l.perm shape) := by
  rw [l.permutedDims_perm]
  exact l.permute_eq_map h (map_entryOf l.source_nodup (h.trans l.length_source.symm))

theorem permute_of_length_ne {shape : List α} (l : Layout) (h : shape.length ≠ l.rank) :
    l.permute shape = .error (.shapeRank l shape.length) := if_neg h

@[simp] theorem length_permutedDims (perm shape : List Nat) :
    (permutedDims perm shape).length = perm.length := by simp [permutedDims]

theorem permutedDims_map (l : Layout) (f : Char → Nat) :
    permutedDims l.perm (l.source.map f) = l.target.map f := by
  rw [l.permutedDims_perm]
  exact List.map_congr_left fun label hl => entryOf_map f (l.relabels.mem_iff.mp hl)

/-- Moving keeps how much a shape holds. -/
theorem elementCount_permutedDims (l : Layout) {shape : List Nat}
    (h : shape.length = l.rank) :
    elementCount (permutedDims l.perm shape) = elementCount shape := by
  obtain ⟨f, rfl⟩ : ∃ f, l.source.map f = shape :=
    ⟨_, map_entryOf l.source_nodup (h.trans l.length_source.symm)⟩
  rw [l.permutedDims_map]
  exact elementCount_perm (l.relabels.map f)

/-- Moving back undoes a move of a shape. -/
theorem permutedDims_inverse (l : Layout) {shape : List Nat} (h : shape.length = l.rank) :
    permutedDims l.inverse.perm (permutedDims l.perm shape) = shape := by
  obtain ⟨f, rfl⟩ : ∃ f, l.source.map f = shape :=
    ⟨_, map_entryOf l.source_nodup (h.trans l.length_source.symm)⟩
  rw [l.permutedDims_map]
  exact l.inverse.permutedDims_map f

/-! ## Where elements come from -/

/-- The axes of the source are where its labels are. -/
theorem map_range_source (l : Layout) (f : Nat → Nat) :
    (List.range l.rank).map f = l.source.map fun label => f (l.source.idxOf label) := by
  apply List.ext_getElem
  · simp [l.length_source]
  · intro i hi hi'
    have hl : i < l.source.length := by simpa using hi'
    simp [l.source_nodup.idxOf_getElem i hl]

theorem idxOf_perm (l : Layout) (label : Char) :
    l.perm.idxOf (l.source.idxOf label) = l.target.idxOf label := by
  have hinj : ∀ {labels : List Char}, (∀ x ∈ labels, x ∈ l.source) →
      (labels.map fun x => l.source.idxOf x).idxOf (l.source.idxOf label) =
        labels.idxOf label := by
    intro labels
    induction labels with
    | nil => intro _; rfl
    | cons x labels ih =>
        intro hsub
        have htail := ih fun y hy => hsub y (List.mem_cons_of_mem _ hy)
        have hiff : (l.source.idxOf x == l.source.idxOf label) = (x == label) := by
          rw [Bool.eq_iff_iff, beq_iff_eq, beq_iff_eq]
          exact List.idxOf_inj (hsub x List.mem_cons_self)
        simp only [List.map_cons, List.idxOf_cons, hiff, htail]
  exact hinj fun x hx => l.relabels.mem_iff.mp hx

/-- The origin of a position: its multi-index in target order, read off in
source order. -/
theorem origin_perm (l : Layout) (f : Char → Nat) (n : Nat) :
    origin l.perm (l.source.map f) n =
      position (l.source.map f)
        (l.source.map (entryOf l.target (multiIndex (l.target.map f) n))) := by
  rw [origin, l.permutedDims_map, List.length_map, l.length_source, l.map_range_source]
  congr 1
  apply List.map_congr_left
  intro label _
  rw [l.idxOf_perm label, entryOf]

/-- The multi-index of a position inside a shape, by labels, stays inside. -/
theorem entryOf_multiIndex_lt (l : Layout) {f : Char → Nat} {n : Nat}
    (hn : n < elementCount (l.source.map f)) :
    ∀ label ∈ l.source, entryOf l.target (multiIndex (l.target.map f) n) label < f label := by
  have hpos : ∀ d ∈ l.target.map f, 0 < d := by
    rw [← elementCount_pos, elementCount_perm (l.relabels.map f)]
    omega
  have hinside := multiIndex_inside hpos n
  have hentries : l.target.map (entryOf l.target (multiIndex (l.target.map f) n)) =
      multiIndex (l.target.map f) n := map_entryOf l.nodup (by simp)
  rw [← hentries] at hinside
  intro label hl
  exact lt_of_inside_map hinside label (l.relabels.mem_iff.mpr hl)

theorem origin_lt (l : Layout) {shape : List Nat} (h : shape.length = l.rank) {n : Nat}
    (hn : n < elementCount shape) : origin l.perm shape n < elementCount shape := by
  obtain ⟨f, rfl⟩ : ∃ f, l.source.map f = shape :=
    ⟨_, map_entryOf l.source_nodup (h.trans l.length_source.symm)⟩
  rw [l.origin_perm]
  exact position_lt (inside_map (l.entryOf_multiIndex_lt hn))

/-- In a buffer that fills its shape every element comes from somewhere. -/
theorem origin_lt_length (l : Layout) {shape : List Nat} {data : List α}
    (h : shape.length = l.rank) (hdata : data.length = elementCount shape) :
    ∀ n, n < elementCount shape → origin l.perm shape n < data.length :=
  fun _ hn => hdata ▸ l.origin_lt h hn

/-! ## The walk is the transpose -/

/-- The walk of a permuted buffer goes through the origins. -/
theorem offsetAt_eq_origin (l : Layout) {shape : List Nat} (h : shape.length = l.rank)
    (n : Nat) :
    offsetAt ((permutedDims l.perm shape).zip
      (permutedDims l.perm (rowMajorStrides shape))).reverse n = origin l.perm shape n := by
  obtain ⟨f, rfl⟩ : ∃ f, l.source.map f = shape :=
    ⟨_, map_entryOf l.source_nodup (h.trans l.length_source.symm)⟩
  obtain ⟨g, hg⟩ : ∃ g, l.source.map g = rowMajorStrides (l.source.map f) :=
    ⟨_, map_entryOf l.source_nodup (by simp)⟩
  rw [offsetAt_reverse _ _ (by simp), ← hg, l.permutedDims_map, l.permutedDims_map,
    l.origin_perm, position, ← hg]
  rw [← dot_map_perm l.relabels, map_entryOf l.nodup (by simp)]

/-- No axis of a walk with a step is empty. -/
theorem pos_of_mem_walk (l : Layout) {shape : List Nat} (h : shape.length = l.rank)
    (hpos : 0 < elementCount shape) {axis : Nat × Nat}
    (haxis : axis ∈ ((permutedDims l.perm shape).zip
      (permutedDims l.perm (rowMajorStrides shape))).reverse) : 0 < axis.1 := by
  have hmem : axis.1 ∈ permutedDims l.perm shape :=
    (List.of_mem_zip (List.mem_reverse.mp haxis)).1
  exact elementCount_pos.mp (l.elementCount_permutedDims h ▸ hpos) axis.1 hmem

/-- Moving a buffer that fills its shape is transposing it. -/
theorem permuteBuffer_eq (l : Layout) {data : List α} {shape : List Nat}
    (h : shape.length = l.rank) (hdata : data.length = elementCount shape) :
    l.permuteBuffer data shape = .ok (transposed l.perm shape data) := by
  have hstrides : (rowMajorStrides shape).length = l.rank := by simpa using h
  have horigin := l.origin_lt_length h hdata
  simp only [permuteBuffer, l.permute_eq h, l.permute_eq hstrides, bind, Except.bind,
    if_pos hdata]
  rcases Nat.eq_zero_or_pos data.length with hz | hpos
  · -- nothing is read, and there is nothing to transpose
    have hnil : transposed l.perm shape data = [] :=
      List.length_eq_zero_iff.mp ((length_transposed horigin).trans (hdata ▸ hz))
    rw [hz, hnil]
    rfl
  · obtain ⟨d, hd⟩ : ∃ d : α, d ∈ data := List.exists_mem_of_length_pos hpos
    let axes := ((permutedDims l.perm shape).zip
      (permutedDims l.perm (rowMajorStrides shape))).reverse
    have haxes : ∀ a ∈ axes, 0 < a.1 := fun _ => l.pos_of_mem_walk h (hdata ▸ hpos)
    have hread : ∀ i, 0 ≤ i → i < 0 + data.length →
        data.toArray[offsetAt axes i]? = some (data.getD (origin l.perm shape i) d) := by
      intro i _ hi
      have hlt := horigin i (by omega)
      rw [l.offsetAt_eq_origin h i, List.getElem?_toArray, List.getElem?_eq_getElem hlt]
      simp [hlt]
    have hwalk := readWalk_turned haxes 0 [] hread
    rw [turned_zero, offsetAt_zero] at hwalk
    rw [← List.map_reverse]
    refine hwalk.trans (congrArg Except.ok ?_)
    rw [List.reverse_nil, List.nil_append, ← List.range_eq_range', hdata]
    refine (transposed_eq_map _ fun n hn => ?_).symm
    have hlt := horigin n hn
    simp [List.getElem?_eq_getElem hlt]

theorem permuteBuffer_of_length_ne (l : Layout) {data : List α} {shape : List Nat}
    (h : shape.length ≠ l.rank) :
    l.permuteBuffer data shape = .error (.shapeRank l shape.length) := by
  simp [permuteBuffer, l.permute_of_length_ne h, bind, Except.bind]

/-- Data that does not fill its shape is not moved. -/
theorem permuteBuffer_of_elementCount_ne (l : Layout) {data : List α} {shape : List Nat}
    (hshape : shape.length = l.rank) (h : data.length ≠ elementCount shape) :
    l.permuteBuffer data shape = .error (.bufferSize data.length shape) := by
  simp [permuteBuffer, l.permute_eq hshape, h, bind, Except.bind]

/-! ## Laws -/

section Laws

variable {l m : Layout} {shape : List Nat} {data : List α}

theorem length_transposed_perm (h : shape.length = l.rank)
    (hdata : data.length = elementCount shape) :
    (transposed l.perm shape data).length = data.length := by
  rw [length_transposed (l.origin_lt_length h hdata), hdata]

theorem getElem?_transposed_perm (h : shape.length = l.rank)
    (hdata : data.length = elementCount shape) {n : Nat} (hn : n < elementCount shape) :
    (transposed l.perm shape data)[n]? = data[origin l.perm shape n]? :=
  getElem?_transposed (l.origin_lt_length h hdata) hn

theorem isMatch_iff : l.isMatch = true ↔ l.source = l.target := by simp [isMatch]

/-- A layout between equal orders moves no axis. -/
theorem permutedDims_of_isMatch (hm : l.isMatch = true) (h : shape.length = l.rank) :
    permutedDims l.perm shape = shape := by
  rw [l.permutedDims_perm, ← isMatch_iff.mp hm]
  exact map_entryOf l.source_nodup (h.trans l.length_source.symm)

/-- A layout between equal orders moves no element. -/
theorem transposed_of_isMatch (hm : l.isMatch = true) (h : shape.length = l.rank)
    (hdata : data.length = elementCount shape) : transposed l.perm shape data = data := by
  have horigin : ∀ n, n < elementCount shape → origin l.perm shape n = n := by
    obtain ⟨f, rfl⟩ : ∃ f, l.source.map f = shape :=
      ⟨_, map_entryOf l.source_nodup (h.trans l.length_source.symm)⟩
    intro n hn
    rw [l.origin_perm, ← isMatch_iff.mp hm, map_entryOf l.source_nodup (by simp),
      position_multiIndex hn]
  have hlength := length_transposed_perm h hdata
  refine List.ext_getElem? fun n => ?_
  by_cases hn : n < elementCount shape
  · rw [getElem?_transposed_perm h hdata hn, horigin n hn]
  · rw [List.getElem?_eq_none (by omega), List.getElem?_eq_none (by omega)]

/-! ### One layout after another -/

/-- The layout from the source of the first to the target of the second. -/
def andThen (l m : Layout) (h : l.target = m.source) : Layout :=
  ⟨l.source, m.target, m.nodup, m.relabels.trans (h ▸ l.relabels)⟩

theorem rank_eq_of_target (h : l.target = m.source) : m.rank = l.rank :=
  m.relabels.length_eq.trans (h ▸ rfl)

@[simp] theorem rank_andThen (h : l.target = m.source) : (l.andThen m h).rank = l.rank :=
  rank_eq_of_target (m := m) h

theorem length_permutedDims_of_target (h : l.target = m.source) :
    (permutedDims l.perm shape).length = m.rank := by
  rw [length_permutedDims, length_perm, rank_eq_of_target h]

/-- Where an element was before both moves. -/
theorem origin_andThen (h : l.target = m.source) (hshape : shape.length = l.rank) {n : Nat}
    (hn : n < elementCount shape) :
    origin l.perm shape (origin m.perm (permutedDims l.perm shape) n) =
      origin (l.andThen m h).perm shape n := by
  obtain ⟨f, rfl⟩ : ∃ f, l.source.map f = shape :=
    ⟨_, map_entryOf l.source_nodup (hshape.trans l.length_source.symm)⟩
  have hcount : elementCount (m.source.map f) = elementCount (l.source.map f) :=
    h ▸ elementCount_perm (l.relabels.map f)
  have hinside := m.entryOf_multiIndex_lt (f := f) (hcount ▸ hn)
  have hboth := (l.andThen m h).origin_perm f n
  simp only [andThen] at hboth
  rw [l.permutedDims_map, h, m.origin_perm, l.origin_perm, h,
    multiIndex_position (inside_map hinside)]
  -- both sides name one multi-index, given as a function of the labels
  refine Eq.trans ?_ hboth.symm
  congr 1
  exact List.map_congr_left fun label hl =>
    entryOf_map _ (h ▸ l.relabels.mem_iff.mpr hl)

theorem transposed_andThen (h : l.target = m.source) (hshape : shape.length = l.rank)
    (hdata : data.length = elementCount shape) :
    transposed m.perm (permutedDims l.perm shape) (transposed l.perm shape data) =
      transposed (l.andThen m h).perm shape data := by
  have hcount := l.elementCount_permutedDims hshape
  have hmiddle : ∀ n, n < elementCount shape →
      origin m.perm (permutedDims l.perm shape) n < elementCount shape := fun n hn =>
    hcount ▸ m.origin_lt (length_permutedDims_of_target h) (hcount.symm ▸ hn)
  simp only [transposed, hcount]
  refine List.filterMap_congr fun n hn => ?_
  have hn := List.mem_range.mp hn
  rw [← origin_andThen h hshape hn]
  exact getElem?_transposed_perm hshape hdata (hmiddle n hn)

/-- Moving back undoes a move. -/
theorem transposed_inverse (h : shape.length = l.rank)
    (hdata : data.length = elementCount shape) :
    transposed l.inverse.perm (permutedDims l.perm shape) (transposed l.perm shape data) =
      data :=
  (transposed_andThen rfl h hdata).trans
    (transposed_of_isMatch (isMatch_iff.mpr rfl) (h.trans (rank_andThen rfl).symm) hdata)

end Laws

end Layout

end Relayout
