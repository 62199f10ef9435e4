/-
# Layouts compose like the relabellings they name

A layout from `s` to `t` followed by one from `t` to `u` is the layout from `s`
to `u` (`andThen`).  On shapes this is plain: all three read off a function of
the labels.  On buffers it says that two walks come to one, which rests on
where an element comes from (`origin_andThen`); that the opposite layout undoes
a move is the case `u = s`.

The axes of the opposite layout are found by looking up its labels.  They are
also what one gets by writing every position of the axes at the place that it
names (`scatter`).
-/
import Relayout.Proofs.Layout.Labels

namespace Relayout

variable {α : Type}

/-! ## Scattering -/

/-- Every position of a list of axes, written where the list points to. -/
def scatter (axes : List Nat) : List Nat :=
  axes.zipIdx.foldl (fun out (axis, place) => out.set axis place)
    (List.replicate axes.length 0)

/-- A place that is written once keeps what was written. -/
theorem getElem?_foldl_set {writes : List (Nat × Nat)} (hn : (writes.map Prod.fst).Nodup)
    {out : List Nat} {axis place : Nat} (hout : axis < out.length)
    (h : out[axis]? = some place ∧ axis ∉ writes.map Prod.fst ∨ (axis, place) ∈ writes) :
    (writes.foldl (fun out (axis, place) => out.set axis place) out)[axis]? = some place := by
  induction writes generalizing out with
  | nil => exact (h.resolve_right List.not_mem_nil).1
  | cons w writes ih =>
      obtain ⟨hfresh, hn⟩ := List.nodup_cons.mp hn
      rw [List.foldl_cons]
      refine ih hn (by rwa [List.length_set]) ?_
      rcases h with ⟨hkept, hnot⟩ | h
      · obtain ⟨hne, hrest⟩ := not_or.mp (List.mem_cons.not.mp hnot)
        exact Or.inl ⟨by rwa [List.getElem?_set_ne (Ne.symm hne)], hrest⟩
      · rcases List.mem_cons.mp h with rfl | h
        · exact Or.inl ⟨List.getElem?_set_self hout, hfresh⟩
        · exact Or.inr h

theorem length_foldl_set (writes : List (Nat × Nat)) (out : List Nat) :
    (writes.foldl (fun out (axis, place) => out.set axis place) out).length = out.length := by
  induction writes generalizing out with
  | nil => rfl
  | cons w writes ih => rw [List.foldl_cons, ih, List.length_set]

@[simp] theorem length_scatter (axes : List Nat) : (scatter axes).length = axes.length := by
  rw [scatter, length_foldl_set, List.length_replicate]

theorem getElem?_scatter {axes : List Nat} (hn : axes.Nodup) {axis place : Nat}
    (hplace : axes[place]? = some axis) (hlt : axis < axes.length) :
    (scatter axes)[axis]? = some place := by
  refine getElem?_foldl_set ?_ (by rwa [List.length_replicate]) (Or.inr ?_)
  · rwa [List.zipIdx_map_fst]
  · exact List.mem_zipIdx_iff_getElem?.mpr hplace

namespace Layout

variable {l m : Layout}

/-! ## Moving twice, moving back, not moving -/

/-- Moving by `l` and then by `m` is moving by `both`. -/
structure Composes (l m both : Layout) : Prop where
  permute : ∀ {α : Type} (xs : List α), xs.length = l.rank →
    ∃ moved out, l.permute xs = .ok moved ∧ m.permute moved = .ok out ∧ both.permute xs = .ok out
  permuteBuffer : ∀ {α : Type} (shape : List Nat) (data : List α),
    shape.length = l.rank → data.length = elementCount shape →
    ∃ dims moved out, l.permute shape = .ok dims ∧ l.permuteBuffer data shape = .ok moved ∧
      m.permuteBuffer moved dims = .ok out ∧ both.permuteBuffer data shape = .ok out

/-- Moving by `back` takes back what was moved by `l`. -/
structure Undoes (back l : Layout) : Prop where
  permute : ∀ {α : Type} (xs : List α), xs.length = l.rank →
    ∃ moved, l.permute xs = .ok moved ∧ back.permute moved = .ok xs
  permuteBuffer : ∀ {α : Type} (shape : List Nat) (data : List α),
    shape.length = l.rank → data.length = elementCount shape →
    ∃ dims moved, l.permute shape = .ok dims ∧ l.permuteBuffer data shape = .ok moved ∧
      back.permuteBuffer moved dims = .ok data

/-- Moving by `l` moves nothing. -/
structure Rests (l : Layout) : Prop where
  permute : ∀ {α : Type} (xs : List α), xs.length = l.rank → l.permute xs = .ok xs
  permuteBuffer : ∀ {α : Type} (shape : List Nat) (data : List α),
    shape.length = l.rank → data.length = elementCount shape →
    l.permuteBuffer data shape = .ok data

/-- What is undone by moving on to a layout that rests. -/
theorem Composes.undoes {both : Layout} (h : l.Composes m both) (hrests : both.Rests)
    (hrank : both.rank = l.rank) : m.Undoes l where
  permute xs hx := by
    obtain ⟨moved, out, hmoved, hout, hboth⟩ := h.permute xs hx
    rw [hrests.permute xs (hx.trans hrank.symm)] at hboth
    cases hboth
    exact ⟨moved, hmoved, hout⟩
  permuteBuffer shape data hshape hdata := by
    obtain ⟨dims, moved, out, hdims, hmoved, hout, hboth⟩ := h.permuteBuffer shape data hshape hdata
    rw [hrests.permuteBuffer shape data (hshape.trans hrank.symm) hdata] at hboth
    cases hboth
    exact ⟨dims, moved, hdims, hmoved, hout⟩

/-! ## One layout after another -/

/-- The entries of a list that belongs to the axes of a layout are a function
of its labels, unless there are none. -/
theorem eq_nil_or_exists_entries (l : Layout) {xs : List α} (h : xs.length = l.rank) :
    xs = [] ∨ ∃ f : Char → α, l.source.map f = xs := by
  cases xs with
  | nil => exact Or.inl rfl
  | cons x xs =>
      refine Or.inr ⟨fun label => (x :: xs).getD (l.source.idxOf label) x, ?_⟩
      refine List.ext_getElem (by rw [List.length_map, h, l.length_source]) fun i hi hi' => ?_
      have hsource : i < l.source.length := by simpa using hi
      simp only [List.getElem_map, l.source_nodup.idxOf_getElem i hsource]
      rw [List.getD_eq_getElem?_getD, List.getElem?_eq_getElem hi', Option.getD_some]

theorem permute_nil (h : 0 = l.rank) : l.permute ([] : List α) = .ok [] := by
  rw [permute, if_pos (by exact h), List.length_eq_zero_iff.mp (l.length_perm.trans h.symm)]
  rfl

/-- Two moves of a list are one. -/
theorem permute_andThen (h : l.target = m.source) {xs : List α} (hx : xs.length = l.rank) :
    ∃ moved out, l.permute xs = .ok moved ∧ m.permute moved = .ok out ∧
      (l.andThen m h).permute xs = .ok out := by
  rcases l.eq_nil_or_exists_entries hx with rfl | ⟨f, hf⟩
  · exact ⟨[], [], permute_nil hx, permute_nil (hx.trans (rank_eq_of_target h).symm),
      permute_nil (hx.trans (rank_andThen h).symm)⟩
  · have hmiddle : m.source.map f = l.target.map f := by rw [h]
    have hlength : (l.target.map f).length = m.rank := by
      rw [List.length_map, rank_eq_of_target h, rank]
    exact ⟨_, _, l.permute_eq_map hx hf, m.permute_eq_map hlength hmiddle,
      (l.andThen m h).permute_eq_map (hx.trans (rank_andThen h).symm) hf⟩

/-- Two moves of a buffer are one. -/
theorem permuteBuffer_andThen (h : l.target = m.source) {shape : List Nat} {data : List α}
    (hshape : shape.length = l.rank) (hdata : data.length = elementCount shape) :
    ∃ dims moved out, l.permute shape = .ok dims ∧ l.permuteBuffer data shape = .ok moved ∧
      m.permuteBuffer moved dims = .ok out ∧
      (l.andThen m h).permuteBuffer data shape = .ok out := by
  have hmoved : (transposed l.perm shape data).length =
      elementCount (permutedDims l.perm shape) := by
    rw [length_transposed_perm hshape hdata, hdata, l.elementCount_permutedDims hshape]
  refine ⟨_, _, _, l.permute_eq hshape, l.permuteBuffer_eq hshape hdata,
    m.permuteBuffer_eq (length_permutedDims_of_target h) hmoved, ?_⟩
  rw [(l.andThen m h).permuteBuffer_eq (hshape.trans (rank_andThen h).symm) hdata,
    transposed_andThen h hshape hdata]

/-! ## The opposite layout -/

/-- The axes of the opposite layout are the positions of the axes, scattered. -/
theorem perm_inverse_eq_scatter (l : Layout) : l.inverse.perm = scatter l.perm := by
  have hnodup : l.perm.Nodup := l.perm_perm_range.nodup_iff.mpr List.nodup_range
  refine List.ext_getElem (by simp) fun i hi hi' => ?_
  have hsource : i < l.source.length := by simpa [l.length_source] using hi
  have hmem : l.source[i] ∈ l.target := l.relabels.mem_iff.mpr (List.getElem_mem hsource)
  have hplace : l.perm[l.target.idxOf l.source[i]]? = some i := by
    rw [getElem?_perm, List.getElem?_idxOf hmem, Option.map_some,
      l.source_nodup.idxOf_getElem i hsource]
  have hscatter := getElem?_scatter hnodup hplace (by simpa [l.length_source] using hsource)
  rw [List.getElem?_eq_getElem hi', Option.some.injEq] at hscatter
  rw [hscatter]
  simp [perm, inverse]

theorem isMatch_iff_perm : l.isMatch = true ↔ l.perm = List.range l.rank := by
  rw [isMatch_iff, eq_comm (a := l.perm), ← eq_perm_iff]
  constructor
  · intro h
    refine ⟨List.length_range, fun i axis hi => ?_⟩
    obtain ⟨hlt, hget⟩ := List.getElem?_eq_some_iff.mp hi
    rw [← hget, List.getElem_range, h]
  · rintro ⟨-, hplaces⟩
    refine List.ext_getElem? fun i => ?_
    by_cases hi : i < l.rank
    · exact hplaces i i (List.getElem?_range hi)
    · rw [List.getElem?_eq_none (by rw [l.length_source]; omega),
        List.getElem?_eq_none (by rw [rank] at hi; omega)]

/-- A layout between equal orders rests. -/
theorem rests_of_isMatch (hm : l.isMatch = true) : l.Rests where
  permute xs h := by
    rcases l.eq_nil_or_exists_entries h with rfl | ⟨f, hf⟩
    · exact permute_nil h
    · rw [l.permute_eq_map h hf, ← isMatch_iff.mp hm, hf]
  permuteBuffer shape data h hdata := by
    rw [l.permuteBuffer_eq h hdata, transposed_of_isMatch hm h hdata]

theorem composes_andThen (h : l.target = m.source) : l.Composes m (l.andThen m h) where
  permute _ hx := permute_andThen h hx
  permuteBuffer _ _ hshape hdata := permuteBuffer_andThen h hshape hdata

theorem inverse_undoes (l : Layout) : l.inverse.Undoes l :=
  (composes_andThen rfl).undoes (rests_of_isMatch (isMatch_iff.mpr rfl)) (rank_andThen rfl)

/-- Layouts compose like the relabellings they name: a layout from `s` to `t`
and one from `t` to `u` make one from `s` to `u`, and moving by the two, one
after the other, is moving by that one.  The opposite layout is the one from
`t` to `s`; its axes are those of the layout scattered, and it undoes a move.
A layout matches when its axes are in order, and then it moves nothing. -/
theorem ofLabels_trans {s t u : String} {l m : Layout} (hl : ofLabels s t = .ok l)
    (hm : ofLabels t u = .ok m) :
    (∃ both, ofLabels s u = .ok both ∧ both.rank = l.rank ∧ l.Composes m both) ∧
    (ofLabels t s = .ok l.inverse ∧ l.inverse.perm = scatter l.perm ∧
      l.inverse.Undoes l ∧ l.inverse.inverse = l) ∧
    (l.isMatch = true ↔ l.perm = List.range l.rank) ∧ (l.isMatch = true → l.Rests) := by
  obtain ⟨hls, hlt⟩ := ofLabels_eq_ok.mp hl
  obtain ⟨hms, hmt⟩ := ofLabels_eq_ok.mp hm
  have hmiddle : l.target = m.source := hlt.trans hms.symm
  refine ⟨⟨l.andThen m hmiddle, ?_, rank_andThen hmiddle, composes_andThen hmiddle⟩,
    ⟨?_, l.perm_inverse_eq_scatter, l.inverse_undoes, l.inverse_inverse⟩, isMatch_iff_perm,
    rests_of_isMatch⟩
  · exact ofLabels_eq_ok.mpr ⟨hls, hmt⟩
  · exact ofLabels_eq_ok.mpr ⟨hlt, hls⟩

/-- From the channel-last to the channel-first order, and on to one with the
batch last. -/
theorem ofLabels_trans_activation :
    ∃ l m both, ofLabels "NHWC" "NCHW" = .ok l ∧ ofLabels "NCHW" "CHWN" = .ok m ∧
      ofLabels "NHWC" "CHWN" = .ok both ∧ l.Composes m both ∧ l.inverse.Undoes l ∧
      l.perm = [0, 3, 1, 2] ∧ l.inverse.perm = [0, 2, 3, 1] ∧ l.isMatch = false := by
  have hfirst : ofLabels "NHWC" "NCHW" = .ok activation := ofLabels_eq_ok.mpr (by decide)
  have hsecond : ofLabels "NCHW" "CHWN" =
      .ok ⟨['N', 'C', 'H', 'W'], ['C', 'H', 'W', 'N'], by decide, by decide⟩ :=
    ofLabels_eq_ok.mpr (by decide)
  obtain ⟨⟨both, hboth, -, hcomposes⟩, ⟨-, hscatter, hundoes, -⟩, -⟩ :=
    ofLabels_trans hfirst hsecond
  exact ⟨_, _, both, hfirst, hsecond, hboth, hcomposes, hundoes, by decide,
    hscatter.trans (by decide), by decide⟩

end Layout

end Relayout
