/-
# Steps

A conversion is a run of steps on a graph and on the tensors and operators in
it.  A step may stop with a fault; what it had changed before stays changed,
so a caller can look at a graph whose conversion failed.
-/
import Relayout.Fault

namespace Relayout

/-- A computation on a state that may stop with a fault. -/
abbrev Step (σ : Type) := EStateM Fault σ

namespace Step

variable {σ τ α : Type}

/-- Stop because of the input. -/
def reject (e : ConversionError) : Step σ α := throw (.input e)

/-- Stop because of a broken invariant. -/
def violate (v : Violation) : Step σ α := throw (.invariant v)

/-- Input errors stop a step. -/
instance : MonadLift (Except ConversionError) (Step σ) where
  monadLift
    | .ok a => pure a
    | .error e => reject e

/-- Broken invariants stop a step. -/
instance : MonadLift (Except Violation) (Step σ) where
  monadLift
    | .ok a => pure a
    | .error v => violate v

/-- Go on only if a condition holds that callers promise. -/
def require (condition : Prop) [Decidable condition] (v : Violation) : Step σ Unit :=
  if condition then pure () else violate v

/-- Go on only if the input meets a condition. -/
def expect (condition : Prop) [Decidable condition] (e : ConversionError) : Step σ Unit :=
  if condition then pure () else reject e

/-- A change that callers promise to be possible. -/
def update (change : σ → Except Violation σ) : Step σ Unit := do
  let next ← change (← get)
  set next

/-- A step on the entry at a position of a list inside the state.  Faults keep
what the entry had become. -/
def onEntry (entries : σ → List τ) (store : σ → List τ → σ) (i : Nat) (step : Step τ α) :
    Step σ α := fun s =>
  match (entries s)[i]? with
  | none => .error (.invariant .indexOutOfBounds) s
  | some t =>
      match step t with
      | .ok a t => .ok a (store s ((entries s).set i t))
      | .error e t => .error e (store s ((entries s).set i t))

end Step

end Relayout
