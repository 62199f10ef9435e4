/-
# When a conversion breaks an invariant

Intake stops only because of the input, and so does emission, once the graph was
adapted.  What is left is adapting: it breaks an invariant exactly if the graph
that was read clashes.
-/
import Relayout.Conversion
import Relayout.Proofs.Graph.Pass
import Relayout.Proofs.Graph.Rendering

namespace Relayout

namespace Graph

/-- The graph that intake leaves of a source. -/
def IsIntake (s : Scope) (layouts : SortedMap ExplicitLayout) (g : Graph) : Prop :=
  (do applyExplicitLayouts s layouts; parse s : Step Graph Unit) .empty = .ok () g

theorem IsIntake.intake {s : Scope} {layouts : SortedMap ExplicitLayout} {g : Graph}
    (h : IsIntake s layouts g) : Intake s layouts g := by
  have := intake_ends s layouts
  rwa [show _ = _ from h] at this

/-- The state that a run left, if it went through. -/
def state? {α σ : Type} : EStateM.Result Fault σ α → Option σ
  | .ok _ s => some s
  | .error _ _ => none

theorem state?_eq_some {σ : Type} {r : EStateM.Result Fault σ Unit} {s : σ}
    (h : state? r = some s) : r = .ok () s := by
  cases r with
  | ok _ s' =>
      cases h
      rfl
  | error e s' => cases h

/-- The graph that was read and what a step makes of it, if a source gets so
far. -/
def intakeThen? (s : Scope) (layouts : SortedMap ExplicitLayout) (x : Step Graph Unit) :
    Option (Graph × Graph) :=
  (state? ((do applyExplicitLayouts s layouts; parse s : Step Graph Unit) .empty)).bind fun g =>
    (state? (x g)).map fun g' => (g, g')

/-- What is seen of a run is true of its graphs. -/
theorem exists_of_intakeThen? (s : Scope) (layouts : SortedMap ExplicitLayout)
    (x : Step Graph Unit) (p : Graph × Graph → Bool)
    (h : (intakeThen? s layouts x).any p = true) :
    ∃ g g', IsIntake s layouts g ∧ x g = .ok () g' ∧ p (g, g') = true := by
  obtain ⟨⟨g, g'⟩, hsome, hp⟩ := (Option.any_eq_true _ _).mp h
  obtain ⟨g₁, hg, hrest⟩ := Option.bind_eq_some_iff.mp hsome
  obtain ⟨g₂, hrun, heq⟩ := Option.map_eq_some_iff.mp hrest
  cases heq
  exact ⟨g, g', state?_eq_some hg, state?_eq_some hrun, hp⟩

/-- The graph that was read and the adapted one, if a source gets so far. -/
def adaptedIntake? (s : Scope) (layouts : SortedMap ExplicitLayout) : Option (Graph × Graph) :=
  intakeThen? s layouts transform

theorem exists_of_adaptedIntake? (s : Scope) (layouts : SortedMap ExplicitLayout)
    (p : Graph × Graph → Bool) (h : (adaptedIntake? s layouts).any p = true) :
    ∃ g g', IsIntake s layouts g ∧ transform g = .ok () g' ∧ p (g, g') = true :=
  exists_of_intakeThen? s layouts transform p h

end Graph

/-- What is seen of a report is true of its outcome. -/
theorem Report.exists_of_outcome {α : Type} (r : Report α) (p : α → Bool)
    (h : (r.outcome.toOption.any p) = true) : ∃ a, r.outcome = .ok a ∧ p a = true := by
  obtain ⟨a, hsome, hp⟩ := (Option.any_eq_true _ _).mp h
  refine ⟨a, ?_, hp⟩
  cases hout : r.outcome with
  | ok a' =>
      rw [hout] at hsome
      cases hsome
      rfl
  | error e =>
      rw [hout] at hsome
      cases hsome

namespace Conversion

open Relayout.Graph

variable {s : Scope} {layouts : SortedMap ExplicitLayout} {g : Graph}

/-- Intake comes first. -/
theorem run_eq (s : Scope) (layouts : SortedMap ExplicitLayout) (name : String) :
    run s layouts name = (do applyExplicitLayouts s layouts; parse s : Step Graph Unit) >>= fun _ =>
      transform >>= fun _ => convert name := by
  simp only [run, bind_assoc]

/-- All stages behind intake. -/
theorem run_of_isIntake (h : IsIntake s layouts g) (name : String) :
    run s layouts name .empty = (do transform; convert name : Step Graph Target.Graph) g := by
  rw [run_eq, Step.run_bind_of_ok (show _ = _ from h)]

/-- Without an intake, the input is to blame. -/
theorem run_of_not_isIntake (h : ∀ g, ¬IsIntake s layouts g) (name : String) :
    ∃ e g, run s layouts name .empty = .error (.input e) g := by
  have hends := intake_ends s layouts
  cases hin : (do applyExplicitLayouts s layouts; parse s : Step Graph Unit) .empty with
  | ok _ g => exact absurd hin (h g)
  | error e g =>
      rw [hin] at hends
      cases e with
      | invariant v => cases hends
      | input e => exact ⟨e, g, by rw [run_eq, Step.run_bind_of_error hin]⟩

/-- Without a clash, the adapted graph is emitted. -/
theorem run_of_not_clash (h : IsIntake s layouts g) (hclash : ¬g.Clash) (name : String) :
    run s layouts name .empty = convert name g.adapted := by
  rw [run_of_isIntake h, Step.run_bind_of_ok (h.intake.run_transform hclash)]

theorem run_of_clash (h : IsIntake s layouts g) (hclash : g.Clash) (name : String) :
    ∃ v g', run s layouts name .empty = .error (.invariant v) g' := by
  have hends := h.intake.transform_ends
  rw [run_of_isIntake h]
  cases ht : transform g with
  | ok _ g' =>
      rw [ht] at hends
      exact absurd hclash hends.1
  | error e g' =>
      rw [ht] at hends
      obtain ⟨⟨v, rfl⟩, -⟩ := hends
      exact ⟨v, g', Step.run_bind_of_error ht⟩

/-- The scope of the only subgraph of a model. -/
def scopeOf (m : Source.Model) (sub : Source.Subgraph) (o : Options) : Scope :=
  ⟨m, sub, o.strictRegistry⟩

theorem convertModel_outcome {m : Source.Model} {sub : Source.Subgraph}
    (h : m.subgraphs = [sub]) (o : Options) :
    (convertModel m o).outcome =
      match run (scopeOf m sub o) o.explicitLayouts (sub.name.getD defaultGraphName) .empty with
      | .ok graph _ =>
          .ok ⟨o.irVersion, o.opsetVersion, o.producerName, o.producerVersion, graph⟩
      | .error e _ => .error e := by
  have hone : m.subgraphs.length = 1 := by rw [h]; rfl
  have hscope : Scope.ofSubgraph? m 0 o.strictRegistry = some (scopeOf m sub o) := by
    rw [Scope.ofSubgraph?, h]
    rfl
  simp only [convertModel, if_pos hone, convertSubgraph, hscope, Report.map, Report.ofStep,
    EStateM.run]
  have hname : (scopeOf m sub o).subgraph.name = sub.name := rfl
  rw [hname]
  cases run (scopeOf m sub o) o.explicitLayouts (sub.name.getD defaultGraphName) .empty <;> rfl

/-- A conversion breaks an invariant exactly if the only subgraph is read and
then clashes; any other failure is an error of the input. -/
theorem convertModel_violates_iff (m : Source.Model) (o : Options) :
    (∃ v, (convertModel m o).outcome = .error (.invariant v)) ↔
      ∃ sub g, m.subgraphs = [sub] ∧ IsIntake (scopeOf m sub o) o.explicitLayouts g ∧
        g.Clash := by
  by_cases hone : ∃ sub, m.subgraphs = [sub]
  · obtain ⟨sub, hsub⟩ := hone
    rw [convertModel_outcome hsub]
    constructor
    · rintro ⟨v, hv⟩
      by_cases hin : ∃ g, IsIntake (scopeOf m sub o) o.explicitLayouts g
      · obtain ⟨g, hg⟩ := hin
        refine ⟨sub, g, hsub, hg, ?_⟩
        by_contra hclash
        rw [run_of_not_clash hg hclash] at hv
        obtain ⟨order, -, hrun⟩ :=
          (hg.intake.adapted_sound hclash).convert_denotes (sub.name.getD defaultGraphName)
        split at hrun <;>
        · obtain ⟨g', hrun⟩ := hrun
          rw [hrun] at hv
          cases hv
      · obtain ⟨e, g, hrun⟩ := run_of_not_isIntake (fun g hg => hin ⟨g, hg⟩)
          (sub.name.getD defaultGraphName)
        rw [hrun] at hv
        cases hv
    · rintro ⟨sub', g, hsub', hg, hclash⟩
      rw [hsub] at hsub'
      cases hsub'
      obtain ⟨v, g', hrun⟩ := run_of_clash hg hclash (sub.name.getD defaultGraphName)
      exact ⟨v, by rw [hrun]⟩
  · have hlength : m.subgraphs.length ≠ 1 := fun hlen =>
      hone (List.length_eq_one_iff.mp hlen)
    rw [convertModel, if_neg hlength]
    refine ⟨?_, fun ⟨sub, _, hsub, _⟩ => absurd ⟨sub, hsub⟩ hone⟩
    rintro ⟨v, hv⟩
    cases hv

/-- A run that goes through read a source that does not clash, and emitted the
adapted graph. -/
theorem run_eq_ok {name : String} {graph : Target.Graph} {g' : Graph}
    (h : run s layouts name .empty = .ok graph g') :
    ∃ g, IsIntake s layouts g ∧ ¬g.Clash ∧ convert name g.adapted = .ok graph g' := by
  by_cases hin : ∃ g, IsIntake s layouts g
  · obtain ⟨g, hg⟩ := hin
    by_cases hclash : g.Clash
    · obtain ⟨v, _, hrun⟩ := run_of_clash hg hclash name
      rw [hrun] at h
      cases h
    · exact ⟨g, hg, hclash, (run_of_not_clash hg hclash name).symm.trans h⟩
  · obtain ⟨e, _, hrun⟩ := run_of_not_isIntake (fun g hg => hin ⟨g, hg⟩) name
    rw [hrun] at h
    cases h

/-- A successful conversion read the only subgraph, which did not clash, and
emitted the adapted graph. -/
theorem convertModel_eq_ok {m : Source.Model} {o : Options} {model : Target.Model}
    (h : (convertModel m o).outcome = .ok model) :
    ∃ sub g g', m.subgraphs = [sub] ∧ IsIntake (scopeOf m sub o) o.explicitLayouts g ∧
      ¬g.Clash ∧ convert (sub.name.getD defaultGraphName) g.adapted = .ok model.graph g' := by
  by_cases hlength : m.subgraphs.length = 1
  · obtain ⟨sub, hsub⟩ := List.length_eq_one_iff.mp hlength
    rw [convertModel_outcome hsub] at h
    split at h
    · rename_i graph g' hrun
      cases h
      obtain ⟨g, hg, hclash, hconvert⟩ := run_eq_ok hrun
      exact ⟨sub, g, g', hsub, hg, hclash, hconvert⟩
    · cases h
  · rw [convertModel, if_neg hlength] at h
    cases h

/-- The same of a subgraph by itself. -/
theorem convertSubgraph_eq_ok {m : Source.Model} {o : Options} {index : Nat}
    {graph : Target.Graph} (h : (convertSubgraph m index o).outcome = .ok graph) :
    ∃ sub g g', m.subgraphs[index]? = some sub ∧
      IsIntake (scopeOf m sub o) o.explicitLayouts g ∧ ¬g.Clash ∧
        convert (sub.name.getD defaultGraphName) g.adapted = .ok graph g' := by
  rw [convertSubgraph, Scope.ofSubgraph?] at h
  cases hsub : m.subgraphs[index]? with
  | none =>
      rw [hsub] at h
      cases h
  | some sub =>
      rw [hsub] at h
      simp only [Option.map_some, Report.ofStep, EStateM.run] at h
      split at h
      · rename_i _ g' hrun
        cases h
        obtain ⟨g, hg, hclash, hconvert⟩ := run_eq_ok hrun
        exact ⟨sub, g, g', rfl, hg, hclash, hconvert⟩
      · cases h

/-- What is seen of a conversion is true of its outcome. -/
theorem exists_of_outcome (m : Source.Model) (o : Options) (p : Target.Model → Bool)
    (h : ((convertModel m o).outcome.toOption.any p) = true) :
    ∃ model, (convertModel m o).outcome = .ok model ∧ p model = true :=
  Report.exists_of_outcome _ p h

/-- A constant of rank two with a layout, which a reshape reads as its shape and
flattens. -/
def flattenedShapeModel : Source.Model where
  version := 3
  description := none
  operatorCodes := [.reshape]
  buffers := [[], [4, 0, 0, 0, 1, 0, 0, 0, 1, 0, 0, 0, 1, 0, 0, 0]]
  subgraphs := [{
    name := none
    tensors := [⟨"x", [1, 4], .float32, 0, none⟩, ⟨"s", [2, 2], .int32, 1, none⟩,
      ⟨"z", [4, 1, 1, 1], .float32, 0, none⟩]
    operators := [⟨0, [0, 1], [2], .none⟩]
    inputs := [0]
    outputs := [2] }]

def flattenedShapeOptions : Options where
  explicitLayouts := .insert .empty "s" ⟨"AB", "BA"⟩
  strictRegistry := true
  opsetVersion := 13
  irVersion := 7
  producerName := "t2o"
  producerVersion := "0.1.0"

/-- The shape operand is flattened behind its layout, which cannot be applied
any more. -/
theorem convertModel_violates_flattenedShape :
    ∃ v, (convertModel flattenedShapeModel flattenedShapeOptions).outcome =
      .error (.invariant v) := by
  have hrun : (match (convertModel flattenedShapeModel flattenedShapeOptions).outcome with
      | .error (.invariant _) => true
      | _ => false) = true := by
    decide +kernel
  split at hrun
  · rename_i v hv
    exact ⟨v, hv⟩
  · cases hrun

end Conversion

end Relayout
