/-
# What a step leaves behind

A step that stops keeps what it had changed before, and callers may go on from
there.  So some statements are about every state that a step can leave, and not
only about that of a step that went through: `Step.Always R` says that the state
at the end, whichever end, is related to the one at the start.  A relation that is
reflexive and transitive is followed through a run by the rules below.
-/
import Mathlib.Order.Defs.Unbundled
import Relayout.Proofs.Step

namespace Relayout.Step

variable {σ τ α β : Type}

/-- The state at the end of a run. -/
def after : EStateM.Result Fault σ α → σ
  | .ok _ s => s
  | .error _ s => s

/-- However a step ends, it leaves a state that is related to the one it started
from. -/
def Always (R : σ → σ → Prop) (x : Step σ α) : Prop := ∀ s, R s (after (x s))

namespace Always

variable {R : σ → σ → Prop} {x : Step σ α}

theorem of_ok (h : x.Always R) {s s' : σ} {a : α} (hrun : x s = .ok a s') : R s s' := by
  have := h s
  rwa [hrun] at this

theorem of_error (h : x.Always R) {s s' : σ} {e : Fault} (hrun : x s = .error e s') :
    R s s' := by
  have := h s
  rwa [hrun] at this

theorem mono {R' : σ → σ → Prop} (h : x.Always R) (hR : ∀ s s', R s s' → R' s s') :
    x.Always R' :=
  fun s => hR _ _ (h s)

theorem ite {c : Prop} [Decidable c] {x y : Step σ α} (hx : x.Always R) (hy : y.Always R) :
    (if c then x else y).Always R := by
  split <;> assumption

section Refl

variable [Std.Refl R]

theorem pure (a : α) : (Pure.pure a : Step σ α).Always R := fun s => refl_of R s

theorem get : (MonadState.get : Step σ σ).Always R := fun s => refl_of R s

theorem reject (e : ConversionError) : (Step.reject e : Step σ α).Always R := fun s => refl_of R s

theorem violate (v : Violation) : (Step.violate v : Step σ α).Always R := fun s => refl_of R s

theorem lift (e : Except ConversionError α) : (liftM e : Step σ α).Always R := fun s => by
  cases e <;> exact refl_of R s

theorem liftViolation (e : Except Violation α) : (liftM e : Step σ α).Always R := fun s => by
  cases e <;> exact refl_of R s

theorem require (condition : Prop) [Decidable condition] (v : Violation) :
    (Step.require condition v : Step σ Unit).Always R := fun s => by
  unfold Step.require
  split <;> exact refl_of R s

theorem expect (condition : Prop) [Decidable condition] (e : ConversionError) :
    (Step.expect condition e : Step σ Unit).Always R := fun s => by
  unfold Step.expect
  split <;> exact refl_of R s

/-- A change that is not possible is not made. -/
theorem update {change : σ → Except Violation σ} (h : ∀ s s', change s = .ok s' → R s s') :
    (Step.update change).Always R := by
  intro s
  rw [Step.update, run_bind_of_ok (run_get s)]
  cases hs : change s with
  | error v => exact refl_of R s
  | ok s' => exact h s s' hs

/-- A step on an entry that is not there changes nothing. -/
theorem onEntry {entries : σ → List τ} {store : σ → List τ → σ} {i : Nat} {step : Step τ α}
    (h : ∀ s t, (entries s)[i]? = some t →
      R s (store s ((entries s).set i (after (step t))))) :
    (Step.onEntry entries store i step).Always R := by
  intro s
  unfold Step.onEntry
  split
  · exact refl_of R s
  · rename_i t ht
    have hstored := h s t ht
    split
    all_goals
      rename_i hrun
      rw [hrun] at hstored
      exact hstored

end Refl

section Preorder

variable [IsTrans σ R]

theorem bind {f : α → Step σ β} (hx : x.Always R) (hf : ∀ a, (f a).Always R) :
    (x >>= f).Always R := by
  intro s
  rw [run_bind]
  cases hrun : x s with
  | ok a s' => exact trans_of R (hx.of_ok hrun) (hf a s')
  | error e s' => exact hx.of_error hrun

variable [Std.Refl R]

theorem discard (hx : x.Always R) : (Functor.discard x).Always R := hx.bind fun _ => .pure ()

theorem forM {f : α → Step σ PUnit} {members : List α} (h : ∀ a ∈ members, (f a).Always R) :
    (members.forM f).Always R := by
  induction members with
  | nil => exact .pure PUnit.unit
  | cons a members ih =>
      exact (h a List.mem_cons_self).bind fun _ => ih fun b hb => h b (List.mem_cons_of_mem _ hb)

theorem mapM {f : α → Step σ β} {members : List α} (h : ∀ a ∈ members, (f a).Always R) :
    (members.mapM f).Always R := by
  induction members with
  | nil => exact .pure []
  | cons a members ih =>
      rw [List.mapM_cons]
      refine (h a List.mem_cons_self).bind fun b => ?_
      exact (ih fun c hc => h c (List.mem_cons_of_mem _ hc)).bind fun bs => .pure (b :: bs)

end Preorder

end Always

end Relayout.Step
