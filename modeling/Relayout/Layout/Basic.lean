/-
# Layouts

A layout names the axis order a tensor is stored in (`source`) and the order
it is wanted in (`target`), one label per axis, e.g. `NHWC` and `NCHW`.  The
two label lists name the same axes, each once; the permutation between them is
read off the labels and not stored.
-/
import Relayout.Text.Literal

namespace Relayout

/-- Two orderings of the same axis labels. -/
structure Layout where
  source : List Char
  target : List Char
  /-- No axis is named twice. -/
  nodup : target.Nodup
  /-- Both sides name the same axes. -/
  relabels : target.Perm source
deriving DecidableEq

/-- Why two label texts are no layout. -/
inductive LabelError where
  | mismatchedRanks (source target : List Char)
  | repeated (label : Char) (target : List Char)
  | missing (label : Char) (source : List Char)
deriving DecidableEq, Repr

def LabelError.message : LabelError → String
  | .mismatchedRanks source target =>
      "layout " ++ Text.charList source ++ " -> " ++ Text.charList target ++
        " has mismatched ranks"
  | .repeated label target =>
      "axis " ++ Text.charLiteral label ++ " repeated in layout target " ++
        Text.charList target
  | .missing label source =>
      "axis " ++ Text.charLiteral label ++ " missing from layout source " ++
        Text.charList source

namespace Layout

/-! ## Reading labels -/

/-- The fault of the first target label that has one: it was met before, or
the source does not have it. -/
def targetFault? (source target : List Char) (seen : List Char) :
    List Char → Option LabelError
  | [] => none
  | label :: rest =>
      if label ∈ seen then some (.repeated label target)
      else if label ∈ source then targetFault? source target (seen ++ [label]) rest
      else some (.missing label source)

/-- The first reason why two label lists are no layout. -/
def labelFault? (source target : List Char) : Option LabelError :=
  if source.length ≠ target.length then some (.mismatchedRanks source target)
  else targetFault? source target [] target

/-- A scan without fault has met distinct labels of the source. -/
theorem nodup_subset_of_targetFault? {source target : List Char} :
    ∀ {rest seen : List Char}, targetFault? source target seen rest = none →
      seen.Nodup → (seen ++ rest).Nodup ∧ rest ⊆ source
  | [], seen, _, hs => by simpa using hs
  | label :: rest, seen, h, hs => by
      unfold targetFault? at h
      split at h
      · cases h
      · split at h
        · rename_i hfresh hmem
          have hs' : (seen ++ [label]).Nodup := by
            refine List.nodup_append.mpr ⟨hs, by simp, ?_⟩
            intro a ha b hb hab
            rw [List.mem_singleton.mp hb] at hab
            exact hfresh (hab ▸ ha)
          have ih := nodup_subset_of_targetFault? h hs'
          refine ⟨by simpa using ih.1, ?_⟩
          intro x hx
          rcases List.mem_cons.mp hx with rfl | hx
          · exact hmem
          · exact ih.2 hx
        · cases h

/-- Distinct members of a list that is no longer are all of it. -/
theorem perm_of_nodup_subset :
    ∀ {target source : List Char}, target.Nodup → target ⊆ source →
      source.length = target.length → target.Perm source
  | [], source, _, _, hlen => by
      rw [List.length_eq_zero_iff.mp hlen]
  | label :: rest, source, hn, hsub, hlen => by
      have hmem : label ∈ source := hsub List.mem_cons_self
      have herase : source.Perm (label :: source.erase label) := List.perm_cons_erase hmem
      have hn' := List.nodup_cons.mp hn
      have hsub' : rest ⊆ source.erase label := by
        intro x hx
        have hxs : x ∈ label :: source.erase label :=
          herase.mem_iff.mp (hsub (List.mem_cons_of_mem _ hx))
        rcases List.mem_cons.mp hxs with rfl | hxs
        · exact absurd hx hn'.1
        · exact hxs
      have hlen' : (source.erase label).length = rest.length := by
        have := herase.length_eq
        simp only [List.length_cons] at this hlen
        omega
      exact ((perm_of_nodup_subset hn'.2 hsub' hlen').cons label).trans herase.symm

/-- Labels without fault are distinct and name the same axes. -/
theorem of_labelFault?_eq_none {source target : List Char}
    (h : labelFault? source target = none) :
    target.Nodup ∧ target.Perm source := by
  unfold labelFault? at h
  split at h
  · cases h
  · rename_i hlen
    have hscan := nodup_subset_of_targetFault? h List.nodup_nil
    have hn : target.Nodup := by simpa using hscan.1
    exact ⟨hn, perm_of_nodup_subset hn hscan.2 (by simpa using hlen)⟩

/-- The layout between two label lists. -/
def ofChars (source target : List Char) : Except LabelError Layout :=
  match h : labelFault? source target with
  | some e => .error e
  | none =>
      .ok ⟨source, target, (of_labelFault?_eq_none h).1, (of_labelFault?_eq_none h).2⟩

/-- The layout between two texts of axis labels, such as `"NHWC"` and
`"NCHW"`. -/
def ofLabels (source target : String) : Except LabelError Layout :=
  ofChars source.toList target.toList

/-! ## Views -/

/-- Number of axes. -/
def rank (l : Layout) : Nat := l.target.length

/-- For every target axis its position in the source: a shape is moved to
`[shape[perm[0]], shape[perm[1]], …]`. -/
def perm (l : Layout) : List Nat := l.target.map fun label => l.source.idxOf label

/-- Whether both orders are the same, so that nothing has to move. -/
def isMatch (l : Layout) : Bool := l.source == l.target

/-- The opposite relabelling. -/
def inverse (l : Layout) : Layout :=
  ⟨l.target, l.source, l.relabels.nodup l.nodup, l.relabels.symm⟩

def sourceText (l : Layout) : String := String.ofList l.source

def targetText (l : Layout) : String := String.ofList l.target

/-- `NHWC->NCHW` -/
def display (l : Layout) : String := l.sourceText ++ "->" ++ l.targetText

/-- The layout with all its parts, as messages show it. -/
def debugText (l : Layout) : String :=
  "Layout \x7b source: " ++ Text.charList l.source ++ ", target: " ++
    Text.charList l.target ++ ", perm: " ++ Text.natList l.perm ++ " \x7d"

/-! ## The layouts of a convolution -/

/-- Activations: batch, height, width, channel to channel-first. -/
def activation : Layout :=
  ⟨['N', 'H', 'W', 'C'], ['N', 'C', 'H', 'W'], by decide, by decide⟩

/-- Weights: output channel, height, width, input channel to channel-first. -/
def weights : Layout :=
  ⟨['O', 'H', 'W', 'I'], ['O', 'I', 'H', 'W'], by decide, by decide⟩

end Layout

/-- An optional layout, as messages show it. -/
def Layout.optionText : Option Layout → String
  | none => "None"
  | some l => "Some(" ++ l.debugText ++ ")"

end Relayout
