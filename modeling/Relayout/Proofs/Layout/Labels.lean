/-
# Which labels make a layout

The scan behind `ofLabels` looks for a repeated label in the target only, and
for target labels that the source does not have.  A label repeated in the
source is caught all the same: distinct members of a list that is no longer
are all of it, so the source has no room for a repetition.  What is accepted
is therefore exactly a relabelling, and since its labels are distinct, only one
list of axes says where each target label is found.
-/
import Relayout.Proofs.Layout.Transpose

namespace Relayout.Layout

variable {l : Layout} {source target : List Char}

/-! ## The scan of the target -/

/-- The scan finds no fault in labels that are new, known and distinct. -/
theorem targetFault?_eq_none {seen rest : List Char} :
    targetFault? source target seen rest = none ↔
      (∀ label ∈ rest, label ∉ seen ∧ label ∈ source) ∧ rest.Nodup := by
  induction rest generalizing seen with
  | nil => exact iff_of_true rfl ⟨fun _ h => (List.not_mem_nil h).elim, List.nodup_nil⟩
  | cons label rest ih =>
      rw [targetFault?, List.forall_mem_cons, List.nodup_cons]
      by_cases hseen : label ∈ seen
      · rw [if_pos hseen]
        exact iff_of_false nofun fun h => h.1.1.1 hseen
      by_cases hsource : label ∈ source
      · rw [if_neg hseen, if_pos hsource, ih]
        constructor
        · rintro ⟨hrest, hnodup⟩
          refine ⟨⟨⟨hseen, hsource⟩, fun x hx => ⟨fun h => ?_, (hrest x hx).2⟩⟩,
            fun h => ?_, hnodup⟩
          · exact (hrest x hx).1 (List.mem_append_left _ h)
          · exact (hrest label h).1 (List.mem_append_right _ List.mem_cons_self)
        · rintro ⟨⟨-, hrest⟩, hfresh, hnodup⟩
          refine ⟨fun x hx => ⟨fun h => ?_, (hrest x hx).2⟩, hnodup⟩
          rcases List.mem_append.mp h with h | h
          · exact (hrest x hx).1 h
          · exact hfresh (List.mem_singleton.mp h ▸ hx)
      · rw [if_neg hseen, if_neg hsource]
        exact iff_of_false nofun fun h => hsource h.1.1.2

theorem labelFault?_eq_none :
    labelFault? source target = none ↔ target.Nodup ∧ target.Perm source := by
  refine ⟨of_labelFault?_eq_none, fun ⟨hnodup, hperm⟩ => ?_⟩
  have hscan : targetFault? source target [] target = none :=
    targetFault?_eq_none.mpr
      ⟨fun label h => ⟨List.not_mem_nil, hperm.mem_iff.mp h⟩, hnodup⟩
  rw [labelFault?, if_neg (not_not.mpr hperm.length_eq.symm), hscan]

/-- The labels are all there is to a layout. -/
theorem ofLabels_eq_ok {source target : String} :
    ofLabels source target = .ok l ↔ l.source = source.toList ∧ l.target = target.toList := by
  rw [ofLabels, ofChars]
  split
  case h_1 e h =>
    refine iff_of_false nofun fun ⟨hsource, htarget⟩ => ?_
    have hnone := labelFault?_eq_none.mpr ⟨l.nodup, l.relabels⟩
    rw [hsource, htarget, h] at hnone
    cases hnone
  case h_2 h =>
    constructor
    · rintro ⟨⟩
      exact ⟨rfl, rfl⟩
    · rintro ⟨hsource, htarget⟩
      cases l
      cases hsource
      cases htarget
      rfl

/-! ## The axes of a layout -/

theorem getElem?_perm (l : Layout) (i : Nat) :
    l.perm[i]? = l.target[i]?.map fun label => l.source.idxOf label := List.getElem?_map

/-- The axes of the target are those of the source, in another order. -/
theorem perm_perm_range (l : Layout) : l.perm.Perm (List.range l.rank) := by
  have hrange : l.source.map (fun label => l.source.idxOf label) = List.range l.rank :=
    (l.map_range_source id).symm.trans (List.map_id _)
  exact hrange ▸ l.relabels.map fun label => l.source.idxOf label

/-- A list of axes that leads every target label to its place in the source is
the one of the layout. -/
theorem eq_perm_iff {axes : List Nat} :
    (axes.length = l.rank ∧ ∀ i axis : Nat, axes[i]? = some axis → l.source[axis]? = l.target[i]?) ↔
      axes = l.perm := by
  constructor
  · rintro ⟨hlength, hplaces⟩
    refine List.ext_getElem (by rw [hlength, length_perm]) fun i hi hi' => ?_
    have htarget : i < l.target.length := by rwa [hlength] at hi
    have hplace := hplaces i axes[i] (List.getElem?_eq_getElem hi)
    rw [List.getElem?_eq_getElem htarget] at hplace
    obtain ⟨hlt, hlabel⟩ := List.getElem?_eq_some_iff.mp hplace
    calc axes[i] = l.source.idxOf l.source[axes[i]] := (l.source_nodup.idxOf_getElem _ hlt).symm
      _ = l.source.idxOf l.target[i] := by rw [hlabel]
      _ = l.perm[i] := by simp [perm]
  · rintro rfl
    refine ⟨l.length_perm, fun i axis h => ?_⟩
    rw [getElem?_perm] at h
    obtain ⟨label, hlabel, rfl⟩ := Option.map_eq_some_iff.mp h
    rw [hlabel]
    exact List.getElem?_idxOf (l.relabels.mem_iff.mp (List.mem_of_getElem? hlabel))

/-- Two texts make a layout exactly when the labels of the first are distinct
and the second lists them in some order.  The axes of the layout are then those
of the rank, each once, and they are the only list that leads every target
label to its place in the source. -/
theorem ofLabels_relabels (source target : String) :
    ((∃ l, ofLabels source target = .ok l) ↔
      source.toList.Nodup ∧ target.toList.Perm source.toList) ∧
    ∀ l, ofLabels source target = .ok l →
      l.rank = source.toList.length ∧ l.perm.Perm (List.range l.rank) ∧
      ∀ axes : List Nat,
        (axes.length = l.rank ∧
          ∀ i axis : Nat, axes[i]? = some axis → source.toList[axis]? = target.toList[i]?) ↔
        axes = l.perm := by
  refine ⟨⟨?_, ?_⟩, fun l hl => ?_⟩
  · rintro ⟨l, hl⟩
    obtain ⟨hsource, htarget⟩ := ofLabels_eq_ok.mp hl
    exact ⟨hsource ▸ l.source_nodup, hsource ▸ htarget ▸ l.relabels⟩
  · rintro ⟨hnodup, hperm⟩
    exact ⟨⟨_, _, hperm.nodup_iff.mpr hnodup, hperm⟩, ofLabels_eq_ok.mpr ⟨rfl, rfl⟩⟩
  · obtain ⟨hsource, htarget⟩ := ofLabels_eq_ok.mp hl
    rw [← hsource, ← htarget]
    exact ⟨l.length_source.symm, l.perm_perm_range, fun _ => eq_perm_iff⟩

theorem ofLabels_relabels_activation :
    ofLabels "NHWC" "NCHW" = .ok activation ∧ activation.perm.Perm (List.range 4) ∧
      ∀ axes : List Nat,
        (axes.length = 4 ∧
          ∀ i axis : Nat, axes[i]? = some axis → "NHWC".toList[axis]? = "NCHW".toList[i]?) ↔
        axes = [0, 3, 1, 2] := by
  have hlabels : ofLabels "NHWC" "NCHW" = .ok activation := ofLabels_eq_ok.mpr (by decide)
  obtain ⟨-, hrange, honly⟩ := (ofLabels_relabels "NHWC" "NCHW").2 _ hlabels
  exact ⟨hlabels, hrange, honly⟩

end Relayout.Layout
