/-
# Strict and lenient conversions

A strict conversion is a lenient one that stops at the first conflict.  If the
lenient conversion reports none, the two are the same, whatever comes out; else
the strict one stops with the error that this report begins with.
-/
import Relayout.Proofs.Graph.Lockstep

namespace Relayout

namespace Report

variable {α β : Type}

/-- The first conflict that was reported. -/
def firstConflict? (r : Report α) : Option Warning := r.warnings.find? fun w => decide w.IsConflict

/-- What a strict conversion reports, next to a lenient one. -/
inductive Stops : Report α → Report α → Prop
  | never {r : Report α} (hnone : r.firstConflict? = none) : Stops r r
  | atConflict {strict lenient : Report α} {e : ConversionError} {w : Warning}
      (hfirst : lenient.firstConflict? = some w) (hconflict : w.conflict? = some e)
      (hstops : strict.outcome = .error (.input e)) : Stops strict lenient

theorem firstConflict?_eq_none {r : Report α} :
    r.firstConflict? = none ↔ ∀ w ∈ r.warnings, ¬w.IsConflict := by
  simp [firstConflict?]

theorem Stops.map {strict lenient : Report α} (h : Stops strict lenient) (f : α → β) :
    Stops (strict.map f) (lenient.map f) := by
  cases h with
  | never hnone => exact .never hnone
  | atConflict hfirst hconflict hstops =>
      refine .atConflict hfirst hconflict ?_
      rw [Report.map, hstops]
      rfl

end Report

namespace Graph

/-- Two steps that agree, run on an empty graph. -/
theorem Agree.ofStep {α : Type} {x x' : Step Graph α} (h : Agree x x') :
    Report.Stops (.ofStep x) (.ofStep x') := by
  have hwarnings : ∀ y : Step Graph α,
      (Report.ofStep y).warnings = (Step.after (y .empty)).warnings := by
    intro y
    unfold Report.ofStep EStateM.run
    cases y .empty <;> rfl
  have hrun := h .empty
  have hfound := hwarnings x'
  have hplain : ∀ {reports : List Warning}, (∀ w ∈ reports, w.conflict? = none) →
      ∀ w ∈ reports, ¬w.IsConflict := by
    intro reports hnone w hw hconflict
    obtain ⟨e, he⟩ := Warning.isConflict_iff.mp hconflict
    rw [hnone w hw] at he
    cases he
  unfold Report.ofStep EStateM.run at hfound ⊢
  generalize x .empty = r at hrun ⊢
  generalize x' .empty = r' at hrun hfound ⊢
  cases hrun with
  | together reports hreports hnone =>
      refine .never (Report.firstConflict?_eq_none.mpr fun w hw => ?_)
      rw [hfound, hreports] at hw
      exact hplain hnone w hw
  | parted reports more hreports hnone hconflict =>
      refine .atConflict ?_ hconflict rfl
      have hnot : reports.find? (fun w => decide w.IsConflict) = none := by
        simpa using hplain hnone
      rw [Report.firstConflict?, hfound, hreports]
      simp [Graph.empty, List.find?_append, hnot, Warning.isConflict_of_conflict? hconflict]

end Graph

namespace Conversion

/-- A strict conversion stops at the first conflict, if there is one. -/
theorem convertModel_stops (m : Source.Model) (o : Options) :
    Report.Stops (convertModel m (o.withStrictRegistry true))
      (convertModel m (o.withStrictRegistry false)) := by
  unfold convertModel
  by_cases hone : m.subgraphs.length = 1
  · rw [if_pos hone, if_pos hone]
    refine Report.Stops.map ?_ _
    obtain ⟨sub, hsub⟩ := List.length_eq_one_iff.mp hone
    have hscope : ∀ strict, Scope.ofSubgraph? m 0 (o.withStrictRegistry strict).strictRegistry =
        some (Scope.treating ⟨m, sub, true⟩ strict) := by
      intro strict
      rw [Scope.ofSubgraph?, hsub]
      rfl
    unfold convertSubgraph
    rw [hscope, hscope]
    exact (Graph.Agree.run _ _).ofStep
  · rw [if_neg hone, if_neg hone]
    exact .never rfl

/-- Strict and lenient conversions of a model agree up to the first conflict.
Without one they report the same: a model, an error or a broken invariant.
Otherwise the strict conversion stops with a conflict whose text the first
report of a conflict begins with.  So what a strict conversion makes of a model,
a lenient one makes as well. -/
theorem convertModel_strict_lenient (m : Source.Model) (o : Options) :
    ((∀ w ∈ (convertModel m (o.withStrictRegistry false)).warnings, ¬w.IsConflict) →
        convertModel m (o.withStrictRegistry true) = convertModel m (o.withStrictRegistry false)) ∧
      (∀ w, (convertModel m (o.withStrictRegistry false)).firstConflict? = some w →
        ∃ e rest,
          ((∃ tensor registered requested, e = .layoutConflict tensor registered requested) ∨
            ∃ tensor, e = .initializerConflict tensor) ∧
          (convertModel m (o.withStrictRegistry true)).outcome = .error (.input e) ∧
          w.message = e.message ++ rest) ∧
      ∀ model, (convertModel m (o.withStrictRegistry true)).outcome = .ok model →
        (convertModel m (o.withStrictRegistry false)).outcome = .ok model := by
  have hstops := convertModel_stops m o
  generalize convertModel m (o.withStrictRegistry true) = strict at hstops
  generalize convertModel m (o.withStrictRegistry false) = lenient at hstops
  cases hstops with
  | never hnone =>
      refine ⟨fun _ => rfl, fun w hw => ?_, fun model hmodel => hmodel⟩
      rw [hnone] at hw
      cases hw
  | @atConflict _ e w hfirst hconflict hstops =>
      refine ⟨fun hplain => ?_, fun w' hw' => ?_, fun model hmodel => ?_⟩
      · rw [Report.firstConflict?_eq_none.mpr hplain] at hfirst
        cases hfirst
      · obtain rfl := Option.some.inj (hfirst.symm.trans hw')
        have hmessage : ∃ rest, w.message = e.message ++ rest :=
          (Warning.message_of_conflict? hconflict).elim (fun h => ⟨_, h⟩) fun h => ⟨_, h⟩
        obtain ⟨rest, hmessage⟩ := hmessage
        refine ⟨e, rest, ?_, hstops, hmessage⟩
        cases w with
        | keptLayout tensor registered requested =>
            cases hconflict
            exact Or.inl ⟨tensor, registered, requested, rfl⟩
        | keptRuntimeValue tensor =>
            cases hconflict
            exact Or.inr ⟨tensor, rfl⟩
        | shapeOperandRank tensor rank => cases hconflict
      · rw [hstops] at hmodel
        cases hmodel

/-- A convolution that reads what a reshape wrote without a layout. -/
def reshapedInputModel : Source.Model where
  version := 3
  description := none
  operatorCodes := [.reshape, .conv2d]
  buffers := [[], [0, 0, 128, 63]]
  subgraphs := [{
    name := none
    tensors := [⟨"x", [1, 4], .float32, 0, none⟩, ⟨"y", [1, 2, 2, 1], .float32, 0, none⟩,
      ⟨"w", [1, 1, 1, 1], .float32, 1, none⟩, ⟨"z", [1, 2, 2, 1], .float32, 0, none⟩]
    operators := [⟨0, [0], [1], .reshape [1, 2, 2, 1]⟩,
      ⟨1, [1, 2], [3], .conv2d ⟨.same, 1, 1, 1, 1, .none⟩⟩]
    inputs := [0]
    outputs := [3] }]

def bareOptions : Options where
  explicitLayouts := .empty
  strictRegistry := true
  opsetVersion := 13
  irVersion := 7
  producerName := "t2o"
  producerVersion := "0.1.0"

/-- The lenient conversion goes through and keeps the tensor as it is. -/
theorem convertModel_strict_lenient_reshapedInput :
    (∃ model, (convertModel reshapedInputModel (bareOptions.withStrictRegistry false)).outcome =
        .ok model) ∧
      ∃ w e rest, (convertModel reshapedInputModel
          (bareOptions.withStrictRegistry false)).firstConflict? = some w ∧
        (convertModel reshapedInputModel (bareOptions.withStrictRegistry true)).outcome =
          .error (.input e) ∧ w.message = e.message ++ rest := by
  have hlenient : (convertModel reshapedInputModel
      (bareOptions.withStrictRegistry false)).outcome.toOption.isSome = true := by
    decide +kernel
  have hconflict : (convertModel reshapedInputModel
      (bareOptions.withStrictRegistry false)).firstConflict?.isSome = true := by
    decide +kernel
  constructor
  · cases hout : (convertModel reshapedInputModel (bareOptions.withStrictRegistry false)).outcome with
    | ok model => exact ⟨model, rfl⟩
    | error e =>
        rw [hout] at hlenient
        cases hlenient
  · obtain ⟨w, hw⟩ := Option.isSome_iff_exists.mp hconflict
    obtain ⟨e, rest, -, hstops, hmessage⟩ :=
      (convertModel_strict_lenient reshapedInputModel bareOptions).2.1 w hw
    exact ⟨w, e, rest, hw, hstops, hmessage⟩

end Conversion

end Relayout
