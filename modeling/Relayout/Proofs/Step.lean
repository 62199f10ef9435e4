/-
# Running steps

What a step does is said in two ways.  `Ends E Q` judges how a run ended: it
stopped with a fault that `E` admits, or it went through and `Q` holds of its
value and of the state it left.  With `E` the faults that the input is to
blame for, one such judgement says both that no invariant is broken and what
is true after a success.  Where more is known of the state a step starts from,
equations `step s = .ok a s'` say exactly what it does.
-/
import Relayout.Step

namespace Relayout

/-- A computation goes through exactly if its two parts do. -/
theorem bind_eq_ok {ε α β : Type} {x : Except ε α} {f : α → Except ε β} {b : β} :
    (x >>= f) = .ok b ↔ ∃ a, x = .ok a ∧ f a = .ok b := by
  cases x with
  | error e => simp [bind, Except.bind]
  | ok a => simp [bind, Except.bind]

/-- A computation fails exactly if one of its two parts does. -/
theorem bind_eq_error {α β ε : Type} {x : Except ε α} {f : α → Except ε β} {e : ε} :
    (x >>= f) = .error e ↔ x = .error e ∨ ∃ a, x = .ok a ∧ f a = .error e := by
  cases x <;> simp [bind, Except.bind]

/-- A computation that goes through for every member collects the results. -/
theorem mapM_ok_of_forall {α β ε : Type} {F : α → Except ε β} {f : α → β} {xs : List α}
    (h : ∀ a ∈ xs, F a = .ok (f a)) : xs.mapM F = .ok (xs.map f) := by
  induction xs with
  | nil => rfl
  | cons a xs ih =>
      rw [List.mapM_cons, h a List.mem_cons_self, ih fun b hb => h b (List.mem_cons_of_mem _ hb)]
      rfl

/-- A loop that fails does so at a member. -/
theorem exists_of_mapM_eq_error {α β ε : Type} {F : α → Except ε β} {xs : List α} {e : ε}
    (h : xs.mapM F = .error e) : ∃ a ∈ xs, F a = .error e := by
  induction xs with
  | nil => cases h
  | cons a xs ih =>
      rw [List.mapM_cons, bind_eq_error] at h
      obtain ha | ⟨b, -, h⟩ := h
      · exact ⟨a, List.mem_cons_self, ha⟩
      · obtain hrest | ⟨bs, -, h⟩ := bind_eq_error.mp h
        · obtain ⟨a', hmem, ha'⟩ := ih hrest
          exact ⟨a', List.mem_cons_of_mem _ hmem, ha'⟩
        · cases h

/-- The input is to blame for a fault. -/
def Fault.FromInput : Fault → Prop
  | .input _ => True
  | .invariant _ => False

namespace Step

variable {σ τ α β : Type} {E : Fault → Prop}

/-- A run stopped with a fault in `E`, or went through with `Q`. -/
def Ends (E : Fault → Prop) (Q : α → σ → Prop) : EStateM.Result Fault σ α → Prop
  | .ok a s => Q a s
  | .error e _ => E e

/-! ## Equations -/

theorem run_bind (x : Step σ α) (f : α → Step σ β) (s : σ) :
    (x >>= f) s = match x s with
      | .ok a s' => f a s'
      | .error e s' => .error e s' := by
  cases h : x s <;> simp only [bind, EStateM.bind, h]

theorem run_bind_of_ok {x : Step σ α} {f : α → Step σ β} {s s' : σ} {a : α}
    (h : x s = .ok a s') : (x >>= f) s = f a s' := by
  rw [run_bind, h]

theorem run_bind_of_error {x : Step σ α} {f : α → Step σ β} {s s' : σ} {e : Fault}
    (h : x s = .error e s') : (x >>= f) s = .error e s' := by
  rw [run_bind, h]

/-- One step after another, as equations. -/
theorem run_seq {x : Step σ α} {f : α → Step σ β} {s s' : σ} {a : α}
    {r : EStateM.Result Fault σ β} (hx : x s = .ok a s') (hf : f a s' = r) : (x >>= f) s = r :=
  (run_bind_of_ok hx).trans hf

/-- Both parts of a run that went through did. -/
theorem bind_eq_ok {x : Step σ α} {f : α → Step σ β} {s s' : σ} {b : β} :
    (x >>= f) s = .ok b s' ↔ ∃ a s₁, x s = .ok a s₁ ∧ f a s₁ = .ok b s' := by
  rw [run_bind]
  cases x s with
  | ok a s₁ =>
      constructor
      · exact fun h => ⟨a, s₁, rfl, h⟩
      · rintro ⟨_, _, ⟨⟩, h⟩
        exact h
  | error e s₁ => simp

theorem lift_eq_ok {x : Except ConversionError α} {s s' : σ} {a : α} :
    (liftM x : Step σ α) s = .ok a s' ↔ x = .ok a ∧ s = s' := by
  cases x with
  | ok b =>
      change EStateM.Result.ok b s = _ ↔ _
      simp
  | error e =>
      change EStateM.Result.error (Fault.input e) s = _ ↔ _
      simp

theorem liftViolation_eq_ok {x : Except Violation α} {s s' : σ} {a : α} :
    (liftM x : Step σ α) s = .ok a s' ↔ x = .ok a ∧ s = s' := by
  cases x with
  | ok b =>
      change EStateM.Result.ok b s = _ ↔ _
      simp
  | error v =>
      change EStateM.Result.error (Fault.invariant v) s = _ ↔ _
      simp

/-- A loop that went through did so for every member. -/
theorem forM_eq_ok {f : α → Step σ PUnit} {members : List α} {s s' : σ}
    (h : members.forM f s = .ok ⟨⟩ s') : ∀ a ∈ members, ∃ s₁ s₂, f a s₁ = .ok ⟨⟩ s₂ := by
  induction members generalizing s with
  | nil => simp
  | cons a rest ih =>
      obtain ⟨_, s₁, ha, hrest⟩ := bind_eq_ok.mp h
      intro b hb
      rcases List.mem_cons.mp hb with rfl | hb
      · exact ⟨s, s₁, ha⟩
      · exact ih hrest b hb

/-- A loop that went through did so up to a member, at it and behind it. -/
theorem forM_append_cons_eq_ok {f : α → Step σ PUnit} {before after : List α}
    {a : α} {s s' : σ} (h : (before ++ a :: after).forM f s = .ok ⟨⟩ s') :
    ∃ s₁ s₂, before.forM f s = .ok ⟨⟩ s₁ ∧ f a s₁ = .ok ⟨⟩ s₂ ∧ after.forM f s₂ = .ok ⟨⟩ s' := by
  induction before generalizing s with
  | nil =>
      obtain ⟨_, s₂, ha, hafter⟩ := bind_eq_ok.mp h
      exact ⟨s, s₂, rfl, ha, hafter⟩
  | cons b before ih =>
      obtain ⟨_, s₀, hb, hrest⟩ := bind_eq_ok.mp h
      obtain ⟨s₁, s₂, hbefore, ha, hafter⟩ := ih hrest
      exact ⟨s₁, s₂, bind_eq_ok.mpr ⟨_, s₀, hb, hbefore⟩, ha, hafter⟩

@[simp] theorem run_pure (a : α) (s : σ) : (pure a : Step σ α) s = .ok a s := rfl

@[simp] theorem run_get (s : σ) : (get : Step σ σ) s = .ok s s := rfl

@[simp] theorem run_set (s s' : σ) : (set s' : Step σ PUnit) s = .ok ⟨⟩ s' := rfl

@[simp] theorem run_modify (f : σ → σ) (s : σ) :
    (modify f : Step σ PUnit) s = .ok ⟨⟩ (f s) := rfl

@[simp] theorem run_reject (e : ConversionError) (s : σ) :
    (reject e : Step σ α) s = .error (.input e) s := rfl

@[simp] theorem run_violate (v : Violation) (s : σ) :
    (violate v : Step σ α) s = .error (.invariant v) s := rfl

@[simp] theorem run_lift_ok (a : α) (s : σ) :
    (liftM (Except.ok a : Except ConversionError α) : Step σ α) s = .ok a s := rfl

@[simp] theorem run_lift_error (e : ConversionError) (s : σ) :
    (liftM (Except.error e : Except ConversionError α) : Step σ α) s =
      .error (.input e) s := rfl

@[simp] theorem run_liftViolation_ok (a : α) (s : σ) :
    (liftM (Except.ok a : Except Violation α) : Step σ α) s = .ok a s := rfl

@[simp] theorem run_liftViolation_error (v : Violation) (s : σ) :
    (liftM (Except.error v : Except Violation α) : Step σ α) s = .error (.invariant v) s := rfl

theorem run_require {condition : Prop} [Decidable condition] (h : condition) (v : Violation)
    (s : σ) : (require condition v : Step σ Unit) s = .ok () s := by
  rw [require, if_pos h, run_pure]

theorem run_expect {condition : Prop} [Decidable condition] (h : condition)
    (e : ConversionError) (s : σ) : (expect condition e : Step σ Unit) s = .ok () s := by
  rw [expect, if_pos h, run_pure]

theorem run_update {change : σ → Except Violation σ} {s s' : σ} (h : change s = .ok s') :
    (update change : Step σ Unit) s = .ok () s' := by
  simp only [update, run_bind, run_get, h, run_liftViolation_ok, run_set]

/-- A change of an entry that went through. -/
theorem onEntry_update_eq_ok {entries : σ → List τ} {store : σ → List τ → σ}
    {i : Nat} {change : τ → Except Violation τ} {s s' : σ}
    (h : onEntry entries store i (update change) s = .ok () s') :
    ∃ t t', (entries s)[i]? = some t ∧ change t = .ok t' ∧ s' = store s ((entries s).set i t') := by
  unfold onEntry at h
  split at h
  · cases h
  · rename_i t ht
    unfold update at h
    rw [run_bind_of_ok (run_get t)] at h
    cases hchange : change t with
    | error v =>
        rw [hchange] at h
        cases h
    | ok t' =>
        rw [hchange] at h
        cases h
        exact ⟨t, t', ht, hchange, rfl⟩

/-! ## Rules -/

theorem Ends.mono {Q R : α → σ → Prop} {r : EStateM.Result Fault σ α} (h : Ends E R r)
    (hQ : ∀ a s, R a s → Q a s) : Ends E Q r := by
  cases r with
  | ok a s => exact hQ a s h
  | error e s => exact h

theorem Ends.weaken {E' : Fault → Prop} {Q : α → σ → Prop} {r : EStateM.Result Fault σ α}
    (h : Ends E Q r) (hE : ∀ e, E e → E' e) : Ends E' Q r := by
  cases r with
  | ok a s => exact h
  | error e s => exact hE e h

theorem Ends.bind {R : α → σ → Prop} {Q : β → σ → Prop} {x : Step σ α} {f : α → Step σ β}
    {s : σ} (hx : Ends E R (x s)) (hf : ∀ a s', R a s' → Ends E Q (f a s')) :
    Ends E Q ((x >>= f) s) := by
  rw [run_bind]
  cases h : x s with
  | ok a s' => exact hf a s' (by rw [h] at hx; exact hx)
  | error e s' => rw [h] at hx; exact hx

theorem Ends.discard {R : α → σ → Prop} {x : Step σ α} {s : σ} (hx : Ends E R (x s)) :
    Ends E (fun _ s' => ∃ a, R a s') ((Functor.discard x) s) :=
  hx.bind (f := fun _ => pure ()) fun a _ ha => ⟨a, ha⟩

/-- A lookup in the input goes on with what it found. -/
theorem Ends.lift {Q : α → σ → Prop} {x : Except ConversionError α} {s : σ}
    (h : ∀ a, x = .ok a → Q a s) : Ends Fault.FromInput Q ((liftM x : Step σ α) s) := by
  cases x with
  | ok a => exact h a rfl
  | error e => exact trivial

theorem Ends.expect {condition : Prop} [Decidable condition] {e : ConversionError}
    {Q : Unit → σ → Prop} {s : σ} (h : condition → Q () s) :
    Ends Fault.FromInput Q ((Step.expect condition e : Step σ Unit) s) := by
  by_cases hc : condition
  · rw [run_expect hc]
    exact h hc
  · rw [Step.expect, if_neg hc]
    exact trivial

theorem Ends.onEntry {entries : σ → List τ} {store : σ → List τ → σ} {i : Nat}
    {step : Step τ α} {s : σ} {t : τ} {R : α → τ → Prop} {Q : α → σ → Prop}
    (ht : (entries s)[i]? = some t) (h : Ends E R (step t))
    (hQ : ∀ a t', R a t' → Q a (store s ((entries s).set i t'))) :
    Ends E Q (Step.onEntry entries store i step s) := by
  simp only [Step.onEntry, ht]
  cases hs : step t with
  | ok a t' => exact hQ a t' (by rw [hs] at h; exact h)
  | error e t' => rw [hs] at h; exact h

/-- A loop keeps what its body keeps, said of the members done so far. -/
theorem Ends.forM {I : List α → σ → Prop} {f : α → Step σ PUnit} {members : List α}
    {s : σ} (h0 : I [] s)
    (hstep : ∀ done a rest s, members = done ++ a :: rest → I done s →
      Ends E (fun _ s' => I (done ++ [a]) s') (f a s)) :
    Ends E (fun _ s' => I members s') (members.forM f s) := by
  suffices h : ∀ rest done s, members = done ++ rest → I done s →
      Ends E (fun _ s' => I members s') (rest.forM f s) from h members [] s rfl h0
  intro rest
  induction rest with
  | nil =>
      intro done s hm hI
      rw [List.append_nil] at hm
      exact hm ▸ hI
  | cons a rest ih =>
      intro done s hm hI
      exact (hstep done a rest s hm hI).bind fun _ s' hI' =>
        ih (done ++ [a]) s' (by rw [hm, List.append_assoc]; rfl) hI'

/-- The same for a loop that collects what its body answers. -/
theorem Ends.mapM {I : List α → List β → σ → Prop} {f : α → Step σ β} {members : List α}
    {s : σ} (h0 : I [] [] s)
    (hstep : ∀ done a rest answers s, members = done ++ a :: rest → I done answers s →
      Ends E (fun b s' => I (done ++ [a]) (answers ++ [b]) s') (f a s)) :
    Ends E (fun answers s' => I members answers s') (members.mapM f s) := by
  suffices h : ∀ rest done answers s, members = done ++ rest → I done answers s →
      Ends E (fun more s' => I members (answers ++ more) s') (rest.mapM f s) by
    simpa using h members [] [] s rfl h0
  intro rest
  induction rest with
  | nil =>
      intro done answers s hm hI
      rw [List.append_nil] at hm
      rw [List.mapM_nil, run_pure, Ends, List.append_nil]
      exact hm ▸ hI
  | cons a rest ih =>
      intro done answers s hm hI
      rw [List.mapM_cons]
      refine (hstep done a rest answers s hm hI).bind fun b s' hI' => ?_
      refine (ih (done ++ [a]) (answers ++ [b]) s'
        (by rw [hm, List.append_assoc]; rfl) hI').bind fun more s'' h => ?_
      rw [run_pure, Ends]
      rwa [List.append_assoc] at h

/-! ## Steps that only look -/

/-- From states in `I`, which it stays in, a step answers what a computation
without a state says. -/
def Denotes (I : σ → Prop) (x : Step σ α) (e : Except ConversionError α) : Prop :=
  ∀ s, I s → match e with
    | .ok a => ∃ s', x s = .ok a s' ∧ I s'
    | .error err => ∃ s', x s = .error (.input err) s'

section Denotes

variable {I : σ → Prop} {x : Step σ α} {e : Except ConversionError α}

theorem Denotes.of_ok {a : α} (h : ∀ s, I s → ∃ s', x s = .ok a s' ∧ I s') :
    Denotes I x (.ok a) := h

theorem Denotes.pure (a : α) : Denotes I (Pure.pure a) (.ok a) := fun s hs => ⟨s, rfl, hs⟩

theorem Denotes.lift (e : Except ConversionError α) : Denotes I (liftM e : Step σ α) e := by
  intro s hs
  cases e with
  | ok a => exact ⟨s, rfl, hs⟩
  | error err => exact ⟨s, rfl⟩

theorem Denotes.bind {f : α → Step σ β} {k : α → Except ConversionError β}
    (hx : Denotes I x e) (hf : ∀ a, e = .ok a → Denotes I (f a) (k a)) :
    Denotes I (x >>= f) (e >>= k) := by
  intro s hs
  have h := hx s hs
  cases e with
  | ok a =>
      obtain ⟨s', hrun, hs'⟩ := h
      have h' := hf a rfl s' hs'
      simp only [Step.run_bind, hrun]
      exact h'
  | error err =>
      obtain ⟨s', hrun⟩ := h
      exact ⟨s', Step.run_bind_of_error hrun⟩

/-- A loop over the members that a view finds. -/
theorem Denotes.mapM {γ : Type} {members : List γ} {p : γ → Option α} {f : γ → Step σ β}
    {k : α → Except ConversionError β}
    (h : ∀ c ∈ members, ∃ a, p c = some a ∧ Denotes I (f c) (k a)) :
    Denotes I (members.mapM f) ((members.filterMap p).mapM k) := by
  induction members with
  | nil => exact .pure []
  | cons c rest ih =>
      obtain ⟨a, ha, hc⟩ := h c List.mem_cons_self
      rw [List.mapM_cons, List.filterMap_cons_some ha, List.mapM_cons]
      refine hc.bind fun b _ => ?_
      exact (ih fun c' hc' => h c' (List.mem_cons_of_mem _ hc')).bind fun bs _ => .pure _

end Denotes

end Step

end Relayout
