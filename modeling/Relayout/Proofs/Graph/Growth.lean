/-
# Rewrites grow the plan

A rewrite is any call that changes a graph once it was read: lifting a rank,
turning an input or an output back, or adapting the whole graph.  Operators,
slots and layouts are arbitrary, and calls may come in any order and number; all
that is asked is that they go through.

Nearly every step of a rewrite leaves the plan alone.  The exception is a pair:
a new operator is synthesized, and later hung below the operator that asked for
it.  Between the two the plan is no forest, which is why the three calls that
splice are followed step by step, and all others by the rules of `Step.Within`.
-/
import Mathlib.Order.Defs.Unbundled
import Relayout.Proofs.Graph.Forest
import Relayout.Proofs.Violations

namespace Relayout

/-! ## Steps inside a relation -/

namespace Step

variable {σ τ α β : Type} {R : σ → σ → Prop} {x : Step σ α}

/-- The state that a step leaves, if it goes through, is related to the one it
started from. -/
def Within (R : σ → σ → Prop) (x : Step σ α) : Prop :=
  ∀ s, Ends (fun _ => True) (fun _ s' => R s s') (x s)

theorem Within.of_ok (h : x.Within R) {s s' : σ} {a : α} (hrun : x s = .ok a s') : R s s' := by
  have := h s
  rwa [hrun] at this

theorem Within.mono {R' : σ → σ → Prop} (h : x.Within R) (hR : ∀ s s', R s s' → R' s s') :
    x.Within R' :=
  fun s => (h s).mono fun _ s' => hR s s'

section Preorder

variable [IsTrans σ R]

theorem Within.bind {f : α → Step σ β} (hx : x.Within R) (hf : ∀ a, (f a).Within R) :
    (x >>= f).Within R :=
  fun s => (hx s).bind fun a s' h => (hf a s').mono fun _ _ h' => trans_of R h h'

variable [Std.Refl R]

theorem Within.discard (hx : x.Within R) : (Functor.discard x).Within R :=
  hx.bind fun _ s => refl_of R s

theorem Within.forM {f : α → Step σ PUnit} {members : List α}
    (h : ∀ a ∈ members, (f a).Within R) : (members.forM f).Within R := by
  induction members with
  | nil => exact fun s => refl_of R s
  | cons a members ih =>
      exact (h a List.mem_cons_self).bind fun _ => ih fun b hb => h b (List.mem_cons_of_mem _ hb)

end Preorder

section Refl

variable [Std.Refl R]

theorem Within.pure (a : α) : (Pure.pure a : Step σ α).Within R := fun s => refl_of R s

theorem Within.get : (MonadState.get : Step σ σ).Within R := fun s => refl_of R s

theorem Within.lift (e : Except ConversionError α) : (liftM e : Step σ α).Within R := fun s => by
  cases e
  · exact trivial
  · exact refl_of R s

theorem Within.liftViolation (e : Except Violation α) : (liftM e : Step σ α).Within R := fun s => by
  cases e
  · exact trivial
  · exact refl_of R s

theorem Within.require (condition : Prop) [Decidable condition] (v : Violation) :
    (Step.require condition v : Step σ Unit).Within R := fun s => by
  unfold Step.require
  split
  · exact refl_of R s
  · exact trivial

theorem Within.expect (condition : Prop) [Decidable condition] (e : ConversionError) :
    (Step.expect condition e : Step σ Unit).Within R := fun s => by
  unfold Step.expect
  split
  · exact refl_of R s
  · exact trivial

end Refl

theorem Within.onEntry {entries : σ → List τ} {store : σ → List τ → σ} {i : Nat}
    {step : Step τ α} (h : ∀ s t a t', (entries s)[i]? = some t → step t = .ok a t' →
      R s (store s ((entries s).set i t'))) : (Step.onEntry entries store i step).Within R := by
  intro s
  unfold Step.onEntry
  split
  · exact trivial
  · rename_i t ht
    split
    · rename_i a t' hrun
      exact h s t a t' ht hrun
    · exact trivial

end Step

namespace Graph

open Step

variable {α : Type} {g g' : Graph} {id : OpId}

/-! ## Steps that leave the plan -/

/-- Two graphs are emitted in the same order. -/
def SamePlan (g g' : Graph) : Prop := g'.plan = g.plan

instance : Std.Refl SamePlan := ⟨fun _ => rfl⟩

instance : IsTrans Graph SamePlan := ⟨fun _ _ _ h h' => h'.trans h⟩

/-- A graph is emitted like another, with more operators spliced in. -/
def PlanGrows (g g' : Graph) : Prop := g.plan.Grows g'.plan

instance : Std.Refl PlanGrows := ⟨fun _ => .refl⟩

instance : IsTrans Graph PlanGrows := ⟨fun _ _ _ h h' => h.trans h'⟩

theorem SamePlan.grows (h : SamePlan g g') : PlanGrows g g' :=
  show g.plan.Grows g'.plan from h ▸ .refl

theorem samePlan_tensor (t : TensorId) : (tensor t).Within SamePlan :=
  .bind .get fun _ => .liftViolation _

theorem samePlan_op (id : OpId) : (op id).Within SamePlan :=
  .bind .get fun _ => .liftViolation _

theorem samePlan_onTensor (t : TensorId) (step : Step Tensor α) :
    (onTensor t step).Within SamePlan := by
  unfold onTensor
  exact .onEntry fun _ _ _ _ _ _ => rfl

theorem samePlan_changeTensor (t : TensorId) (f : Tensor → Tensor) :
    (changeTensor t f).Within SamePlan :=
  samePlan_onTensor t _

theorem samePlan_updateTensor (t : TensorId) (f : Tensor → Except Violation Tensor) :
    (updateTensor t f).Within SamePlan :=
  samePlan_onTensor t _

theorem samePlan_addTensor (name : String) (make : TensorId → Tensor) :
    (addTensor name make).Within SamePlan := fun _ => rfl

/-- An operator changes but keeps its place. -/
theorem samePlan_onOp {step : Step Operator α}
    (h : ∀ o a o', step o = .ok a o' → o'.place = o.place) : (onOp id step).Within SamePlan := by
  unfold onOp
  refine .onEntry fun g o a o' ho hrun => ?_
  rw [SamePlan, plan, plan, map_set_of_eq ho (h _ _ _ hrun)]

theorem samePlan_changeOp {f : Operator → Operator} (hf : ∀ o, (f o).place = o.place) :
    (changeOp id f).Within SamePlan := by
  refine samePlan_onOp fun o _ o' hrun => ?_
  cases hrun
  exact hf o

theorem samePlan_updateOp {f : Operator → Except Violation Operator}
    (hf : ∀ o o', f o = .ok o' → o'.place = o.place) : (updateOp id f).Within SamePlan := by
  refine samePlan_onOp fun o _ o' hrun => hf o o' ?_
  unfold Step.update at hrun
  rw [run_bind_of_ok (run_get o)] at hrun
  cases hchange : f o with
  | error v =>
      rw [hchange] at hrun
      cases hrun
  | ok next =>
      rw [hchange] at hrun
      cases hrun
      rfl

theorem place_replaceInput {old new : TensorId} {o o' : Operator}
    (h : o.replaceInput old new = .ok o') : o'.place = o.place := by
  unfold Operator.replaceInput at h
  split at h
  · cases h
    rfl
  · cases h

theorem place_replaceOutput {old new : TensorId} {o o' : Operator}
    (h : o.replaceOutput old new = .ok o') : o'.place = o.place := by
  unfold Operator.replaceOutput at h
  split at h
  · cases h
    rfl
  · cases h

theorem place_advance {next : Status} {o o' : Operator} (h : o.advance next = .ok o') :
    o'.place = o.place := by
  obtain ⟨status, -, heq⟩ := bind_eq_ok.mp h
  cases heq
  rfl

theorem samePlan_setParsed : (updateOp id (·.setParsed)).Within SamePlan :=
  samePlan_updateOp fun _ _ h => place_advance h

theorem samePlan_registered {name : String} {make : Step Graph (TensorId → Tensor)}
    (hmake : make.Within SamePlan) : (registered name make).Within SamePlan := by
  refine .bind .get fun g => ?_
  split
  · exact .pure _
  · exact hmake.bind fun _ => samePlan_addTensor _ _

theorem samePlan_derive (t : TensorId) (name : String) (constant : Bool) :
    (derive t name constant).Within SamePlan :=
  samePlan_registered ((samePlan_tensor t).bind fun _ => .pure _)

theorem samePlan_vector (owner : String) (values : List Int) :
    (vector owner values).Within SamePlan :=
  samePlan_registered (.pure _)

theorem samePlan_complete (t : TensorId) (shape : List Nat) (l : Layout) :
    (complete t shape l).Within SamePlan :=
  (samePlan_changeTensor _ _).bind fun _ => (samePlan_updateTensor _ _).bind fun _ =>
    samePlan_updateTensor _ _

theorem samePlan_readInstead (reader : OpId) (operand moved : TensorId) :
    (readInstead reader operand moved).Within SamePlan :=
  (samePlan_changeTensor _ _).bind fun _ =>
    (samePlan_updateOp fun _ _ h => place_replaceInput h).bind fun _ => samePlan_changeTensor _ _

/-! ## Splices -/

variable {β : Type} {w : Plan} {Q : β → Graph → Prop}

/-- A step that leaves the plan, and the rest of a run. -/
theorem ends_bind_samePlan {x : Step Graph α} {f : α → Step Graph β} (hx : x.Within SamePlan)
    (hg : g.plan = w) (hf : ∀ a g', g'.plan = w → Ends (fun _ => True) Q (f a g')) :
    Ends (fun _ => True) Q ((x >>= f) g) :=
  (hx g).bind fun a g' h => hf a g' (h.trans hg)

/-- An operator that is read is one of the arena. -/
theorem ends_bind_op {f : Operator → Step Graph β} (hg : g.plan = w)
    (hf : ∀ o, id.index < w.places.length → Ends (fun _ => True) Q (f o g)) :
    Ends (fun _ => True) Q ((op id >>= f) g) := by
  cases ho : g.ops[id.index]? with
  | none =>
      have hrun : op id g = .error (.invariant .indexOutOfBounds) g := by
        rw [op, run_bind_of_ok (run_get g), entryAt, ho]
        rfl
      rw [run_bind_of_error hrun]
      exact trivial
  | some o =>
      rw [run_bind_of_ok (run_op ho)]
      refine hf o ?_
      rw [← hg, plan, List.length_map]
      exact (List.getElem?_eq_some_iff.mp ho).1

theorem ends_bind_synthesize {kind : Kind} {name : String} {f : OpId → Step Graph β}
    (hg : g.plan = w)
    (hf : ∀ g', g'.plan = w.loose → Ends (fun _ => True) Q (f w.next g')) :
    Ends (fun _ => True) Q ((synthesize kind name >>= f) g) := by
  rw [run_bind_of_ok (run_synthesize kind name g)]
  subst hg
  have hnext : g.plan.next = ⟨g.ops.length⟩ := by rw [Plan.next, plan, List.length_map]
  rw [← hnext]
  refine hf _ ?_
  rw [Plan.loose, plan, plan, List.map_append]
  rfl

/-- The new operator is hung below an old one. -/
theorem ends_bind_hang {hang : OpId → Place → Place} {change : Operator → Operator}
    {f : Unit → Step Graph β} (hid : id.index < w.places.length) (hg : g.plan = w.loose)
    (hchange : ∀ o, (change o).place = hang w.next o.place)
    (hf : ∀ g', g'.plan = w.splice id hang → Ends (fun _ => True) Q (f () g')) :
    Ends (fun _ => True) Q ((changeOp id change >>= f) g) := by
  have hplaces : g.ops.map Operator.place = w.places ++ [⟨none, [], []⟩] :=
    congrArg Plan.places hg
  have hlt : id.index < g.ops.length := by
    have := congrArg List.length hplaces
    rw [List.length_map, List.length_append] at this
    omega
  rw [run_bind_of_ok (run_changeOp hlt change)]
  refine hf _ ?_
  rw [plan, map_modify hchange, hplaces, modify_append_left hid]
  have horder : g.order = w.order := congrArg Plan.order hg
  have hcreated : g.created = w.created ++ [w.next] := congrArg Plan.created hg
  rw [horder, hcreated]
  rfl

/-- A splice begins with an operator that is not hung anywhere yet. -/
theorem ends_bind_attach {kind : Kind} {name : String} {f : Operator → Operator}
    {operand : TensorId} {c : OpId → Tensor → Except Violation Tensor} {rest : OpId → Step Graph β}
    (hg : g.plan = w) (hf : ∀ o, (f o).place = o.place)
    (hrest : ∀ g', g'.plan = w.loose → Ends (fun _ => True) Q (rest w.next g')) :
    Ends (fun _ => True) Q ((do
      let spliced ← synthesize kind name
      changeOp spliced f
      updateTensor operand (c spliced)
      rest spliced) g) := by
  refine ends_bind_synthesize hg fun g₁ h₁ => ?_
  refine ends_bind_samePlan (samePlan_changeOp hf) h₁ fun _ g₂ h₂ => ?_
  exact ends_bind_samePlan (samePlan_updateTensor _ _) h₂ fun _ => hrest

/-- A splice ends with its operator hung below its owner. -/
theorem ends_hang {owner spliced : OpId} {moved : TensorId}
    {replace : Operator → Except Violation Operator} {last change : Operator → Operator}
    {link link' : Tensor → Tensor} {hang : OpId → Place → Place}
    (howner : owner.index < w.places.length) (hg : g.plan = w.loose)
    (hreplace : ∀ o o', replace o = .ok o' → o'.place = o.place)
    (hlast : ∀ o, (last o).place = o.place)
    (hchange : ∀ o, (change o).place = hang w.next o.place) :
    Ends (fun _ => True) (fun _ g' => g'.plan = w.splice owner hang) ((do
      updateOp owner replace
      changeOp spliced last
      changeTensor moved link
      changeTensor moved link'
      updateOp spliced (·.setParsed)
      changeOp owner change
      return spliced) g) := by
  refine ends_bind_samePlan (samePlan_updateOp hreplace) hg fun _ g₁ h₁ => ?_
  refine ends_bind_samePlan (samePlan_changeOp hlast) h₁ fun _ g₂ h₂ => ?_
  refine ends_bind_samePlan (samePlan_changeTensor _ _) h₂ fun _ g₃ h₃ => ?_
  refine ends_bind_samePlan (samePlan_changeTensor _ _) h₃ fun _ g₄ h₄ => ?_
  refine ends_bind_samePlan samePlan_setParsed h₄ fun _ g₅ h₅ => ?_
  exact ends_bind_hang howner h₅ hchange fun _ h => h

theorem transposeBefore_plan {reader : OpId} (hid : reader.index < w.places.length)
    (hg : g.plan = w) (operand moved : TensorId) (perm : List Nat) (name : String) :
    Ends (fun _ => True) (fun _ g' => g'.plan = w.splice reader Place.addPre)
      (transposeBefore reader operand moved perm name g) :=
  ends_bind_attach hg (fun _ => rfl) fun _ h =>
    ends_hang hid h (fun _ _ => place_replaceInput) (fun _ => rfl) fun _ => rfl

theorem transposeAfter_plan {writer : OpId} (hid : writer.index < w.places.length)
    (hg : g.plan = w) (operand moved : TensorId) (perm : List Nat) (name : String) :
    Ends (fun _ => True) (fun _ g' => g'.plan = w.splice writer Place.addPost)
      (transposeAfter writer operand moved perm name g) :=
  ends_bind_attach hg (fun _ => rfl) fun _ h =>
    ends_hang hid h (fun _ _ => place_replaceOutput) (fun _ => rfl) fun _ => rfl

/-! ## Rewrites -/

/-- Every rewrite begins with an operator of the arena and one of its
operands. -/
theorem ends_bind_opening {ready : Operator → Prop} [DecidablePred ready]
    {unready : Operator → Violation} {pick : Operator → Except Violation TensorId}
    {rest : TensorId → Tensor → Step Graph β}
    (hrest : id.index < g.plan.places.length → ∀ operand t g', g'.plan = g.plan →
      Ends (fun _ => True) Q (rest operand t g')) :
    Ends (fun _ => True) Q ((do
      let operator ← op id
      Step.require (ready operator) (unready operator)
      let x ← pick operator
      let u ← tensor x
      rest x u) g) := by
  refine ends_bind_op rfl fun operator hid => ?_
  refine ends_bind_samePlan (.require _ _) rfl fun _ g₁ h₁ => ?_
  refine ends_bind_samePlan (.liftViolation _) h₁ fun operand g₂ h₂ => ?_
  exact ends_bind_samePlan (samePlan_tensor _) h₂ fun t => hrest hid operand t

theorem preserveInput_grows (id : OpId) (slot : Nat) :
    (preserveInput id slot).Within PlanGrows := by
  intro g
  refine ends_bind_opening fun hid operand t g₁ h₁ => ?_
  refine ends_bind_samePlan (.lift _) h₁ fun l g₂ h₂ => ?_
  refine ends_bind_samePlan (.liftViolation _) h₂ fun shape g₃ h₃ => ?_
  refine ends_bind_samePlan .get h₃ fun g' g₄ h₄ => ?_
  rcases g'.producerNamed? (synthesizedName "Transposed" t.name) with _ | ⟨existing, turn⟩
  · refine ends_bind_samePlan (samePlan_derive _ _ _) h₄ fun moved g₅ h₅ => ?_
    refine ends_bind_samePlan (samePlan_complete _ _ _) h₅ fun _ g₆ h₆ => ?_
    exact (transposeBefore_plan hid h₆ _ _ _ _).mono fun _ g₇ h₇ =>
      show g.plan.Grows g₇.plan from h₇ ▸ .before .refl hid
  · -- A shared transpose hangs where it was: below the first that asked.
    refine ends_bind_samePlan (samePlan_readInstead _ _ _) h₄ fun _ g₅ h₅ => ?_
    refine ends_bind_samePlan (samePlan_op _) h₅ fun _ g₆ h₆ => ?_
    exact SamePlan.grows h₆

theorem preserveOutput_grows (id : OpId) (slot : Nat) :
    (preserveOutput id slot).Within PlanGrows := by
  intro g
  refine ends_bind_opening fun hid operand t g₁ h₁ => ?_
  refine ends_bind_samePlan (.lift _) h₁ fun l g₂ h₂ => ?_
  refine ends_bind_samePlan (.liftViolation _) h₂ fun shape g₃ h₃ => ?_
  refine ends_bind_samePlan (samePlan_derive _ _ _) h₃ fun moved g₄ h₄ => ?_
  refine ends_bind_samePlan (samePlan_complete _ _ _) h₄ fun _ g₅ h₅ => ?_
  exact (transposeAfter_plan hid h₅ _ _ _ _).mono fun _ g₆ h₆ =>
    show g.plan.Grows g₆.plan from h₆ ▸ .behind .refl hid

theorem liftRank_grows (id : OpId) (slot : Nat) (l : Layout) :
    (liftRank id slot l).Within PlanGrows := by
  intro g
  refine ends_bind_opening fun hid operand t g₁ h₁ => ?_
  refine ends_bind_samePlan (.expect _ _) h₁ fun _ g₂ h₂ => ?_
  refine ends_bind_samePlan (samePlan_derive _ _ _) h₂ fun lifted g₃ h₃ => ?_
  refine ends_bind_samePlan (samePlan_vector _ _) h₃ fun values g₄ h₄ => ?_
  refine ends_bind_samePlan (samePlan_complete _ _ _) h₄ fun _ g₅ h₅ => ?_
  refine ends_bind_attach h₅ (fun _ => rfl) fun g₆ h₆ => ?_
  refine ends_bind_samePlan (samePlan_changeTensor _ _) h₆ fun _ g₇ h₇ => ?_
  refine Ends.mono ?_ fun _ g₈ (h₈ : g₈.plan = g.plan.splice id Place.addPre) =>
    show g.plan.Grows g₈.plan from h₈ ▸ .before .refl hid
  exact ends_hang hid h₇ (fun _ _ => place_replaceInput) (fun _ => rfl) fun _ => rfl

theorem samePlan_adaptLift (operator : Operator) (input output : TensorId) :
    (adaptLift operator input output).Within SamePlan := by
  refine (samePlan_tensor _).bind fun _ => (samePlan_tensor _).bind fun _ => ?_
  refine (Within.require _ _).bind fun _ => (Within.lift _).bind fun l => ?_
  refine (Within.liftViolation _).bind fun shape => (samePlan_tensor _).bind fun t => ?_
  split
  · exact fun _ => trivial
  · exact (Within.liftViolation _).bind fun _ => samePlan_changeTensor _ _

theorem adapt_grows (id : OpId) (operator : Operator) :
    (adapt id operator).Within PlanGrows := by
  unfold adapt
  split
  · exact .pure _
  · exact .pure _
  · refine (Within.liftViolation _).bind fun input => (Within.liftViolation _).bind fun output => ?_
    split
    · exact (samePlan_adaptLift _ _ _).mono fun _ _ => SamePlan.grows
    · refine Within.bind ?_ fun _ => ?_
      · refine ((samePlan_tensor _).mono fun _ _ => SamePlan.grows).bind fun t => ?_
        split
        · exact (preserveInput_grows _ _).discard
        · exact .pure _
      · refine ((samePlan_tensor _).mono fun _ _ => SamePlan.grows).bind fun t => ?_
        split
        · exact (preserveOutput_grows _ _).discard
        · exact .pure _

theorem transformOp_grows (id : OpId) : (transformOp id).Within PlanGrows := by
  refine ((samePlan_op _).mono fun _ _ => SamePlan.grows).bind fun operator => ?_
  refine (Within.require _ _).bind fun _ => ?_
  split
  · exact .pure _
  · exact (adapt_grows _ _).bind fun _ =>
      (samePlan_updateOp fun _ _ => place_advance).mono fun _ _ => SamePlan.grows

theorem transform_grows : transform.Within PlanGrows := by
  refine Within.get.bind fun g => Within.bind (.forM fun id _ => ?_) fun _ => ?_
  · exact (samePlan_updateTensor _ _).mono fun _ _ => SamePlan.grows
  · exact Within.get.bind fun _ => .forM fun i _ => transformOp_grows _

/-- A call that changes a graph once it was read. -/
inductive Rewrite where
  | liftRank (id : OpId) (slot : Nat) (l : Layout)
  | preserveInput (id : OpId) (slot : Nat)
  | preserveOutput (id : OpId) (slot : Nat)
  | transform

def Rewrite.run : Rewrite → Step Graph Unit
  | .liftRank id slot l => discard (Graph.liftRank id slot l)
  | .preserveInput id slot => discard (Graph.preserveInput id slot)
  | .preserveOutput id slot => discard (Graph.preserveOutput id slot)
  | .transform => Graph.transform

theorem Rewrite.run_grows (r : Rewrite) : r.run.Within PlanGrows := by
  cases r with
  | liftRank id slot l => exact (liftRank_grows id slot l).discard
  | preserveInput id slot => exact (preserveInput_grows id slot).discard
  | preserveOutput id slot => exact (preserveOutput_grows id slot).discard
  | transform => exact transform_grows

/-- A graph that was read has no splices: its plan is a forest of roots. -/
theorem Intake.forest {s : Scope} {layouts : SortedMap ExplicitLayout} (h : Intake s layouts g) :
    g.plan.Forest s.subgraph.operators.length := by
  have hlen : g.plan.places.length = s.subgraph.operators.length := by
    rw [plan, List.length_map, h.taken.length]
  have hplace : ∀ {i : Nat} {p : Place}, g.plan.places[i]? = some p →
      p = ⟨some i, [], []⟩ := by
    intro i p hp
    rw [plan, List.getElem?_map] at hp
    obtain ⟨o, ho, rfl⟩ := Option.map_eq_some_iff.mp hp
    obtain ⟨_, _, -, -, hstands⟩ := h.stands_at ho
    rw [Operator.place, hstands.index, hstands.pre, hstands.post]
  refine ⟨Nat.le_of_eq hlen.symm, h.taken.order, ?_, ?_, fun hp q hq => ?_, fun {i p} hp => ?_⟩
  · rw [hlen, Nat.sub_self]
    exact h.taken.created
  · have hnone : g.plan.places.flatMap Place.splices = [] := by
      refine List.flatMap_eq_nil_iff.mpr fun p hp => ?_
      obtain ⟨i, hi⟩ := List.getElem?_of_mem hp
      rw [hplace hi]
      rfl
    rw [hnone, show g.plan.created = [] from h.taken.created]
  · rw [hplace hp] at hq
    exact absurd hq List.not_mem_nil
  · have hi := (List.getElem?_eq_some_iff.mp hp).1
    rw [hlen] at hi
    rw [hplace hp, if_pos hi]

variable {s : Scope} {layouts : SortedMap ExplicitLayout} {rewrites : List Rewrite}

/-- Rewrites keep the forest, whichever they are. -/
theorem IsIntake.forest_of_rewrites (h : IsIntake s layouts g)
    (hrun : rewrites.forM Rewrite.run g = .ok ⟨⟩ g') :
    g'.plan.Forest s.subgraph.operators.length := by
  have hgrows : (rewrites.forM Rewrite.run).Within PlanGrows := .forM fun r _ => r.run_grows
  exact (hgrows.of_ok hrun).forest h.intake.forest

/-- After any calls that went through, the operators of the arena have an order
of emission that lists each of them once, those of the source in source order.
Right before an operator stands what hangs below the operators spliced in
before it, and right behind it what hangs below those spliced in behind it. -/
theorem emissionOrder_of_rewrites (h : IsIntake s layouts g)
    (hrun : rewrites.forM Rewrite.run g = .ok ⟨⟩ g') :
    ∃ order, emissionOrder g' = .ok order ∧
      order.Perm ((List.range g'.ops.length).map OpId.mk) ∧
      order.Perm (g'.order ++ g'.created) ∧
      order.filterMap g'.sourceOf? = List.range s.subgraph.operators.length ∧
      ∀ (id : OpId) (o : Operator), g'.ops[id.index]? = some o →
        ∃ ahead before behind rest,
          order = ahead ++ (before ++ [id] ++ behind) ++ rest ∧
          (∀ q, q ∈ before ↔ ∃ p ∈ o.pre, g'.Below p q) ∧
          ∀ q, q ∈ behind ↔ ∃ p ∈ o.post, g'.Below p q := by
  have hforest := h.forest_of_rewrites hrun
  refine ⟨g'.order.flatMap g'.stretch, hforest.emissionOrder_eq, hforest.emission_perm, ?_,
    hforest.filterMap_sourceOf?_emission, fun id o ho => ?_⟩
  · rw [hforest.order_append_created]
    exact hforest.emission_perm
  · obtain ⟨ahead, rest, heq⟩ := hforest.exists_split ho
    exact ⟨ahead, o.pre.flatMap g'.stretch, o.post.flatMap g'.stretch, rest, heq,
      fun q => hforest.mem_flatMap_stretch ho fun p hp => List.mem_append_left _ hp,
      fun q => hforest.mem_flatMap_stretch ho fun p hp => List.mem_append_right _ hp⟩

/-! ## One run -/

/-- Two reshapes of one value. -/
def forkedSubgraph : Source.Subgraph where
  name := none
  tensors := [⟨"x", [2, 2], .float32, 0, none⟩, ⟨"y", [4], .float32, 0, none⟩,
    ⟨"z", [4], .float32, 0, none⟩]
  operators := [⟨0, [0], [1], .reshape [4]⟩, ⟨0, [0], [2], .reshape [4]⟩]
  inputs := [0]
  outputs := [1, 2]

def forkedScope : Scope where
  model := ⟨3, none, [.reshape], [[]], [forkedSubgraph]⟩
  subgraph := forkedSubgraph
  strict := true

def forkedLayouts : SortedMap ExplicitLayout := .ofEntries [("x", ⟨"AB", "BA"⟩), ("y", ⟨"A", "A"⟩)]

/-- A splice below a splice: the reshape that lifts the input of the first
operator gets its own input turned back. -/
def nestedRewrites : List Rewrite :=
  [.liftRank ⟨0⟩ 0 ⟨['A', 'B', 'C'], ['C', 'A', 'B'], by decide, by decide⟩,
    .preserveInput ⟨2⟩ 0, .preserveOutput ⟨0⟩ 0, .transform]

theorem emissionOrder_of_rewrites_nested : ∃ g g', IsIntake forkedScope forkedLayouts g ∧
    nestedRewrites.forM Rewrite.run g = .ok ⟨⟩ g' ∧
    emissionOrder g' = .ok ([3, 2, 5, 0, 4, 6, 1].map OpId.mk) ∧
    ([3, 2, 5, 0, 4, 6, 1].map OpId.mk).Perm (g'.order ++ g'.created) ∧
    ([3, 2, 5, 0, 4, 6, 1].map OpId.mk).filterMap g'.sourceOf? = [0, 1] := by
  obtain ⟨g, g', hg, hrun, hseen⟩ := exists_of_intakeThen? forkedScope forkedLayouts
    (nestedRewrites.forM Rewrite.run)
    (fun r => decide ((emissionOrder r.2).toOption = some ([3, 2, 5, 0, 4, 6, 1].map OpId.mk)))
    (by decide +kernel)
  obtain ⟨order, horder, -, hperm, hsources, -⟩ := emissionOrder_of_rewrites hg hrun
  obtain rfl : order = [3, 2, 5, 0, 4, 6, 1].map OpId.mk := by
    have hseen := of_decide_eq_true hseen
    rw [horder] at hseen
    exact Option.some.inj hseen
  exact ⟨g, g', hg, hrun, horder, hperm, hsources⟩

end Graph

end Relayout
