/-
# Emission only reports

Emitting a graph reads it and writes nothing but stages, and these it only moves on.  So
the graph is the same afterwards as far as emission looks, and emitted again it gives
the same, wherever the first emission stopped.

Both follow from one judgement on two runs.  `Step.Alike I S` compares two steps from any
two states in `I`: they answer what `S` relates or stop with the same fault, and leave
states in `I`.  With `I` the graphs that are further on than `g`, that of `g` itself says
what emission leaves, and that of `g` and of what it left says what a second emission
answers.
-/
import Relayout.Graph.Emission
import Relayout.Proofs.Aftermath
import Relayout.Proofs.Graph.Directory
import Relayout.Proofs.Tensor

namespace Relayout

/-! ## Two runs -/

namespace Step

variable {σ τ α β γ δ : Type}

/-- The answer of a run, or the fault that stopped it. -/
def answer : EStateM.Result Fault σ α → Except Fault α
  | .ok a _ => .ok a
  | .error e _ => .error e

/-- Two runs that ended alike, in states that `I` admits. -/
inductive EndsAlike (I : σ → Prop) (S : α → β → Prop) :
    EStateM.Result Fault σ α → EStateM.Result Fault σ β → Prop
  | ok {a : α} {b : β} {s k : σ} (hab : S a b) (hs : I s) (hk : I k) :
      EndsAlike I S (.ok a s) (.ok b k)
  | error {e : Fault} {s k : σ} (hs : I s) (hk : I k) : EndsAlike I S (.error e s) (.error e k)

/-- From any two states in `I` two steps end alike. -/
def Alike (I : σ → Prop) (S : α → β → Prop) (x : Step σ α) (y : Step σ β) : Prop :=
  ∀ s k, I s → I k → EndsAlike I S (x s) (y k)

theorem EndsAlike.after {I : σ → Prop} {S : α → β → Prop} {r : EStateM.Result Fault σ α}
    {r' : EStateM.Result Fault σ β} (h : EndsAlike I S r r') : I (Step.after r) := by
  cases h with
  | ok _ hs _ => exact hs
  | error hs _ => exact hs

theorem EndsAlike.answer_eq {I : σ → Prop} {r r' : EStateM.Result Fault σ α}
    (h : EndsAlike I Eq r r') : answer r = answer r' := by
  cases h with
  | ok hab _ _ => rw [answer, answer, hab]
  | error _ _ => rfl

namespace Alike

variable {I : σ → Prop} {S : α → β → Prop} {T : γ → δ → Prop} {x : Step σ α} {y : Step σ β}

theorem mono {S' : α → β → Prop} (h : Alike I S x y) (hS : ∀ a b, S a b → S' a b) :
    Alike I S' x y := by
  intro s k hs hk
  have hends := h s k hs hk
  generalize x s = r at hends
  generalize y k = r' at hends
  cases hends with
  | ok hab hs' hk' => exact .ok (hS _ _ hab) hs' hk'
  | error hs' hk' => exact .error hs' hk'

theorem pure {a : α} {b : β} (h : S a b) : Alike I S (Pure.pure a) (Pure.pure b) :=
  fun _ _ hs hk => .ok h hs hk

theorem get : Alike I (fun s k => I s ∧ I k) MonadState.get MonadState.get :=
  fun _ _ hs hk => .ok ⟨hs, hk⟩ hs hk

theorem bind {f : α → Step σ γ} {f' : β → Step σ δ} (hx : Alike I S x y)
    (hf : ∀ a b, S a b → Alike I T (f a) (f' b)) : Alike I T (x >>= f) (y >>= f') := by
  intro s k hs hk
  have hends := hx s k hs hk
  rw [run_bind, run_bind]
  generalize x s = r at hends
  generalize y k = r' at hends
  cases hends with
  | ok hab hs' hk' => exact hf _ _ hab _ _ hs' hk'
  | error hs' hk' => exact .error hs' hk'

/-- A step that says its fault or its answer without a look at the state. -/
theorem lift (e : Except ConversionError α) :
    Alike I (fun a b => a = b) (liftM e : Step σ α) (liftM e) := by
  intro s k hs hk
  cases e with
  | ok a => exact .ok rfl hs hk
  | error err => exact .error hs hk

theorem liftViolation (e : Except Violation α) :
    Alike I (fun a b => a = b) (liftM e : Step σ α) (liftM e) := by
  intro s k hs hk
  cases e with
  | ok a => exact .ok rfl hs hk
  | error v => exact .error hs hk

/-- Behind a condition it is known to hold. -/
theorem require (c : Prop) [Decidable c] (v : Violation) :
    Alike I (fun _ _ => c) (Step.require c v : Step σ Unit) (Step.require c v) := by
  intro s k hs hk
  unfold Step.require
  split
  · exact .ok ‹c› hs hk
  · exact .error hs hk

theorem mapM {ι : Type} {members : List ι} {f : ι → Step σ α} {f' : ι → Step σ β}
    (h : ∀ i ∈ members, Alike I S (f i) (f' i)) :
    Alike I (List.Forall₂ S) (members.mapM f) (members.mapM f') := by
  induction members with
  | nil => exact .pure .nil
  | cons i rest ih =>
      rw [List.mapM_cons, List.mapM_cons]
      refine (h i List.mem_cons_self).bind fun a b hab => ?_
      refine (ih fun j hj => h j (List.mem_cons_of_mem i hj)).bind fun as bs hrest => ?_
      exact .pure (.cons hab hrest)

/-- A loop whose members answer the same. -/
theorem mapM_eq {ι : Type} {members : List ι} {f f' : ι → Step σ α}
    (h : ∀ i ∈ members, Alike I Eq (f i) (f' i)) :
    Alike I Eq (members.mapM f) (members.mapM f') :=
  (mapM h).mono fun _ _ hrel => List.forall₂_eq_eq_eq ▸ hrel

/-- A change that is possible in any state. -/
theorem update {change : σ → Except Violation σ}
    (h : ∀ s, I s → ∃ s', change s = .ok s' ∧ I s') :
    Alike I Eq (Step.update change) (Step.update change) := by
  intro s k hs hk
  obtain ⟨s', hs', hIs⟩ := h s hs
  obtain ⟨k', hk', hIk⟩ := h k hk
  rw [run_update hs', run_update hk']
  exact .ok rfl hIs hIk

section Entries

variable {entries : σ → List τ} {i : Nat} {J : τ → τ → Prop} {entry : Option τ}

/-- An entry is read that is related to one and the same in any state. -/
theorem entryAt (h : ∀ s, I s → Option.Rel J entry (entries s)[i]?) :
    Alike I (fun a b => ∃ t, entry = some t ∧ J t a ∧ J t b)
      (do Relayout.entryAt (entries (← MonadState.get)) i : Step σ τ)
      (do Relayout.entryAt (entries (← MonadState.get)) i) := by
  intro s k hs hk
  have hrels := h s hs
  have hrelk := h k hk
  rw [run_bind_of_ok (run_get s), run_bind_of_ok (run_get k)]
  unfold Relayout.entryAt
  generalize (entries s)[i]? = a at hrels
  generalize (entries k)[i]? = b at hrelk
  cases hrels with
  | none =>
      cases hrelk
      exact .error hs hk
  | some ha =>
      cases hrelk with
      | some hb => exact .ok ⟨_, rfl, ha, hb⟩ hs hk

/-- Steps on an entry are alike if they are so on what is related to the entry. -/
theorem onEntry {store : σ → List τ → σ} {step : Step τ α} {step' : Step τ β}
    (h : ∀ s, I s → Option.Rel J entry (entries s)[i]?)
    (hstore : ∀ s t u, I s → entry = some t → J t u → I (store s ((entries s).set i u)))
    (hstep : ∀ t, entry = some t → Alike (J t) S step step') :
    Alike I S (Step.onEntry entries store i step) (Step.onEntry entries store i step') := by
  intro s k hs hk
  have hrels := h s hs
  have hrelk := h k hk
  have hstores := hstore s
  have hstorek := hstore k
  unfold Step.onEntry
  generalize (entries s)[i]? = a at hrels
  generalize (entries k)[i]? = b at hrelk
  cases hrels with
  | none =>
      cases hrelk
      exact .error hs hk
  | some ha =>
      cases hrelk with
      | some hb =>
          have hends := hstep _ rfl _ _ ha hb
          dsimp only
          generalize step _ = r at hends
          generalize step' _ = r' at hends
          cases hends with
          | ok hab ha' hb' => exact .ok hab (hstores _ _ hs rfl ha') (hstorek _ _ hk rfl hb')
          | error ha' hb' => exact .error (hstores _ _ hs rfl ha') (hstorek _ _ hk rfl hb')

end Entries

end Alike

end Step

open Step (Alike)

/-! ## Stages that moved on -/

/-- The stage of what was parsed may be further on; what was not parsed is where it
was. -/
structure Status.Leads (s s' : Status) : Prop where
  stage_le : s.stage ≤ s'.stage
  isParsed_eq : s'.isParsed = s.isParsed

theorem Status.Leads.refl (s : Status) : s.Leads s := ⟨Nat.le_refl _, rfl⟩

theorem Status.leads_converted {s : Status} (h : s.isParsed = true) : s.Leads .converted where
  stage_le := s.stage_le_converted
  isParsed_eq := h.symm

/-- A tensor of which nothing but the stage has changed. -/
def Tensor.Advanced (t u : Tensor) : Prop := ∃ s, u = { t with status := s } ∧ t.status.Leads s

/-- An operator of which nothing but the stage has changed. -/
def Operator.Advanced (o p : Operator) : Prop := ∃ s, p = { o with status := s } ∧ o.status.Leads s

/-- What was parsed can be converted, whatever its stage by now. -/
theorem Tensor.Advanced.advance {t u : Tensor} (h : t.Advanced u)
    (hparsed : t.status.isParsed = true) :
    ∃ u', u.advance .converted = .ok u' ∧ t.Advanced u' := by
  obtain ⟨s, rfl, -⟩ := h
  refine ⟨{ t with status := .converted }, ?_, _, rfl, Status.leads_converted hparsed⟩
  rw [Tensor.advance, Status.advance_of_le s.stage_le_converted]
  rfl

theorem Operator.Advanced.advance {o p : Operator} (h : o.Advanced p)
    (hparsed : o.status.isParsed = true) :
    ∃ p', p.advance .converted = .ok p' ∧ o.Advanced p' := by
  obtain ⟨s, rfl, -⟩ := h
  refine ⟨{ o with status := .converted }, ?_, _, rfl, Status.leads_converted hparsed⟩
  rw [Operator.advance, Status.advance_of_le s.stage_le_converted]
  rfl

instance : Std.Refl Tensor.Advanced := ⟨fun t => ⟨t.status, rfl, .refl _⟩⟩

instance : Std.Refl Operator.Advanced := ⟨fun o => ⟨o.status, rfl, .refl _⟩⟩

/-- A graph in which nothing but stages has changed. -/
structure Graph.Advanced (g k : Graph) : Prop where
  tensors : List.Forall₂ Tensor.Advanced g.tensors k.tensors
  ops : List.Forall₂ Operator.Advanced g.ops k.ops
  rest : k = { g with tensors := k.tensors, ops := k.ops }

/-- Lists that are related member by member have related members, or none. -/
theorem rel_getElem? {α β : Type} {R : α → β → Prop} {xs : List α} {ys : List β}
    (h : List.Forall₂ R xs ys) (i : Nat) : Option.Rel R xs[i]? ys[i]? := by
  induction h generalizing i with
  | nil => exact .none
  | cons hxy _ ih =>
      cases i with
      | zero => exact .some hxy
      | succ i => exact ih i

theorem forall₂_set {α β : Type} {R : α → β → Prop} {xs : List α} {ys : List β}
    (h : List.Forall₂ R xs ys) {i : Nat} {x : α} {y : β} (hx : xs[i]? = some x) (hxy : R x y) :
    List.Forall₂ R xs (ys.set i y) := by
  induction h generalizing i with
  | nil => cases hx
  | cons hhead htail ih =>
      cases i with
      | zero =>
          cases hx
          exact .cons hxy htail
      | succ i => exact .cons hhead (ih hx)

namespace Graph

variable {α β : Type} {g k : Graph} {S : α → β → Prop}

theorem Advanced.refl (g : Graph) : g.Advanced g :=
  ⟨List.forall₂_refl _, List.forall₂_refl _, rfl⟩

/-! ## Entries -/

variable {id : TensorId} {p : OpId}

theorem alike_tensor (id : TensorId) :
    Alike g.Advanced (fun t u => t.name = u.name) (tensor id) (tensor id) := by
  refine (Alike.entryAt fun _ hk => rel_getElem? hk.tensors id.index).mono ?_
  rintro _ _ ⟨t, -, ⟨_, rfl, -⟩, _, rfl, -⟩
  rfl

theorem alike_op (p : OpId) :
    Alike g.Advanced (fun o o' => ∃ q, g.ops[p.index]? = some q ∧ q.Advanced o ∧ q.Advanced o')
      (op p) (op p) :=
  .entryAt fun _ hk => rel_getElem? hk.ops p.index

theorem alike_onTensor {step : Step Tensor α} {step' : Step Tensor β}
    (h : ∀ t, g.tensors[id.index]? = some t → Alike t.Advanced S step step') :
    Alike g.Advanced S (onTensor id step) (onTensor id step') := by
  refine .onEntry (fun _ hk => rel_getElem? hk.tensors id.index) ?_ h
  intro k t u hk ht hu
  exact ⟨forall₂_set hk.tensors ht hu, hk.ops, by rw [hk.rest]⟩

theorem alike_onOp {step : Step Operator α} {step' : Step Operator β}
    (h : ∀ o, g.ops[p.index]? = some o → Alike o.Advanced S step step') :
    Alike g.Advanced S (onOp p step) (onOp p step') := by
  refine .onEntry (fun _ hk => rel_getElem? hk.ops p.index) ?_ h
  intro k o o' hk ho ho'
  exact ⟨hk.tensors, forall₂_set hk.ops ho ho', by rw [hk.rest]⟩

end Graph

/-! ## What is converted -/

theorem Tensor.alike_convert (t : Tensor) :
    Alike t.Advanced Eq Tensor.convert Tensor.convert := by
  refine Alike.get.bind ?_
  rintro _ _ ⟨⟨s, rfl, hs⟩, k, rfl, hk⟩
  dsimp only
  rw [hs.isParsed_eq, hk.isParsed_eq]
  refine (Alike.require _ _).bind fun _ _ hparsed => ?_
  refine (Alike.lift _).bind ?_
  rintro data _ rfl
  refine (Alike.liftViolation _).bind ?_
  rintro type _ rfl
  refine (Alike.lift _).bind fun _ _ _ => ?_
  exact (Alike.update fun _ hu => hu.advance hparsed).bind fun _ _ _ => .pure rfl

namespace Graph

variable {g k : Graph}

theorem map_eq_of_forall₂ {ι : Type} {p : Tensor → ι} {ts us : List Tensor}
    (h : List.Forall₂ (fun t u => p t = p u) ts us) : ts.map p = us.map p := by
  rwa [← List.forall₂_eq_eq_eq, List.forall₂_map_left_iff, List.forall₂_map_right_iff]

theorem alike_convertOp (p : OpId) : Alike g.Advanced Eq (convertOp p) (convertOp p) := by
  refine (alike_op p).bind ?_
  rintro _ _ ⟨o, ho, ⟨s, rfl, hs⟩, k, rfl, hk⟩
  dsimp only
  rw [hs.isParsed_eq, hk.isParsed_eq]
  refine (Alike.require _ _).bind fun _ _ hparsed => ?_
  refine (Alike.mapM fun id _ => alike_tensor id).bind fun ins ins' hins => ?_
  refine (Alike.mapM fun id _ => alike_tensor id).bind fun outs outs' houts => ?_
  rw [map_eq_of_forall₂ hins, map_eq_of_forall₂ houts]
  refine (Alike.lift _).bind fun _ _ _ => ?_
  have hmove : Alike g.Advanced Eq (updateOp p (·.advance .converted))
      (updateOp p (·.advance .converted)) := by
    refine alike_onOp fun o' ho' => .update fun _ hu => ?_
    obtain rfl := Option.some.inj (ho.symm.trans ho')
    exact hu.advance hparsed
  exact hmove.bind fun _ _ _ => .pure rfl

theorem alike_convertTensor (id : TensorId) :
    Alike g.Advanced Eq (convertTensor id) (convertTensor id) := by
  refine (alike_onTensor fun t _ => t.alike_convert).bind ?_
  rintro node _ rfl
  refine Alike.get.bind fun s k ⟨hs, hk⟩ => .pure ?_
  rw [hs.rest, hk.rest]
  rfl

/-! ## The whole graph -/

/-- The order of emission does not depend on stages. -/
theorem flatten_eq {ops ops' : List Operator} (h : List.Forall₂ Operator.Advanced ops ops')
    (fuel : Nat) : flatten ops' fuel = flatten ops fuel := by
  induction fuel with
  | zero => rfl
  | succ fuel ih =>
      funext p
      have hrel := rel_getElem? h p.index
      rw [flatten, flatten, ih, entryAt, entryAt]
      generalize ops[p.index]? = o at hrel
      generalize ops'[p.index]? = o' at hrel
      cases hrel with
      | none => rfl
      | some ho =>
          obtain ⟨s, rfl, -⟩ := ho
          rfl

theorem Advanced.emissionOrder_eq (h : g.Advanced k) : emissionOrder k = emissionOrder g := by
  have horder : k.order = g.order := by rw [h.rest]
  rw [emissionOrder, emissionOrder, horder, ← h.ops.length_eq, flatten_eq h.ops]

theorem referenced_congr (inputs : List TensorId) {os os' : List Operator}
    (h : List.Forall₂ (fun o o' => o.inputs = o'.inputs ∧ o.outputs = o'.outputs) os os') :
    referenced inputs os = referenced inputs os' := by
  have hmentioned : os.flatMap (fun o => o.inputs ++ o.outputs) =
      os'.flatMap fun o => o.inputs ++ o.outputs := by
    induction h with
    | nil => rfl
    | cons ho _ ih => rw [List.flatMap_cons, List.flatMap_cons, ho.1, ho.2, ih]
  rw [referenced, referenced, hmentioned]

theorem alike_operands (p : OpId) :
    Alike g.Advanced (fun o o' => o.inputs = o'.inputs ∧ o.outputs = o'.outputs) (op p) (op p) := by
  refine (alike_op p).mono ?_
  rintro _ _ ⟨o, -, ⟨_, rfl, -⟩, _, rfl, -⟩
  exact ⟨rfl, rfl⟩

/-- Emissions of a graph at two stages end alike. -/
theorem alike_convert (g : Graph) (name : String) :
    Alike g.Advanced Eq (convert name) (convert name) := by
  refine Alike.get.bind fun s k ⟨hs, hk⟩ => ?_
  rw [hs.emissionOrder_eq, hk.emissionOrder_eq]
  refine (Alike.liftViolation _).bind ?_
  rintro order _ rfl
  refine (Alike.mapM_eq fun p _ => alike_convertOp p).bind ?_
  rintro nodes _ rfl
  refine (Alike.mapM fun p _ => alike_operands p).bind fun os os' hos => ?_
  refine Alike.get.bind fun s k ⟨hs, hk⟩ => ?_
  rw [hs.rest, hk.rest, referenced_congr _ hos]
  refine (Alike.mapM_eq fun id _ => alike_convertTensor id).bind ?_
  rintro tensors _ rfl
  refine Alike.get.bind fun s k ⟨hs, hk⟩ => ?_
  rw [hs.rest, hk.rest]
  refine (Alike.mapM_eq fun id _ => alike_onTensor fun t _ => t.alike_convert).bind ?_
  rintro outputs _ rfl
  refine (Alike.lift _).bind fun _ _ _ => .pure rfl

theorem Advanced.directory_eq (h : g.Advanced k) : k.directory = g.directory := by
  have hentries : g.tensors.map (fun t => (t.id, t.name)) =
      k.tensors.map fun t => (t.id, t.name) := by
    refine map_eq_of_forall₂ (h.tensors.imp ?_)
    rintro t _ ⟨s, rfl, -⟩
    rfl
  have hby : k.byName = g.byName := by rw [h.rest]
  rw [directory, directory, hentries, hby]

/-- Emission changes nothing but stages, however it ends, and moves them on only.  The
registry stays as it is, and what is left answers every emission as the graph did. -/
theorem convert_reports (g : Graph) (name : String) :
    g.Advanced (Step.after (convert name g)) ∧
    (Step.after (convert name g)).directory = g.directory ∧
    ∀ again : String, Step.answer (convert again (Step.after (convert name g))) =
      Step.answer (convert again g) := by
  have hadvanced : g.Advanced (Step.after (convert name g)) :=
    (alike_convert g name g g (.refl g) (.refl g)).after
  exact ⟨hadvanced, hadvanced.directory_eq, fun again =>
    (alike_convert g again _ g hadvanced (.refl g)).answer_eq⟩

/-- Emission stops at the second tensor, which has not been parsed, and leaves the first one
converted. -/
example :
    let a := constant "a" [] (.ofInts .int64 [1]) ⟨0⟩
    let b := Tensor.fresh "b" none none false ⟨1⟩
    let g := { (empty.adding a).adding b with inputs := [⟨0⟩, ⟨1⟩] }
    (Step.after (convert "g" g)).tensors.map Tensor.status = [.converted, .inited] := by
  decide

end Graph

end Relayout
