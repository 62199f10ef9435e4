/-
# How a request is answered

A request for a source tensor is answered in one of four ways, and each is an equation:
an index may dangle, a name may be new, and a name that is registered already is found
or refused, because what is registered is not what was asked for (`refused?`).  Only a
new name changes the tensors, and it changes none that was there.
-/
import Relayout.Proofs.Graph.Edit

namespace Relayout.Graph

variable {s : Scope} {g : Graph} {index : Int64} {d : Source.TensorDecl} {layout : Option Layout}
  {constant : Bool} {id : TensorId} {t : Tensor}

/-- Another layout than the registered one. -/
def layoutConflict? (t : Tensor) : Option Layout → Option ConversionError
  | none => none
  | some l => if t.layout = some l then none else some (.layoutConflict t.name t.layout l)

/-- A constant, where a runtime value was read. -/
def constantConflict? (t : Tensor) (constant : Bool) : Option ConversionError :=
  if constant && t.status.isParsed && !t.isInitializer then some (.initializerConflict t.name)
  else none

/-- What a request for a registered tensor is refused for.  Only a strict scope
refuses. -/
def refused? (s : Scope) (t : Tensor) (layout : Option Layout) (constant : Bool) :
    Option ConversionError :=
  if s.strict then (layoutConflict? t layout).or (constantConflict? t constant) else none

/-! ## Checks -/

theorem run_checkLayout_of_strict (h : s.strict = true) (t : Tensor) (layout : Option Layout)
    (g : Graph) :
    checkLayout s t layout g = match layoutConflict? t layout with
      | none => .ok () g
      | some e => .error (.input e) g := by
  cases layout with
  | none => rfl
  | some l =>
      by_cases hsame : t.layout = some l
      · rw [checkLayout, layoutConflict?, if_pos hsame, if_pos hsame, Step.run_pure]
      · rw [checkLayout, layoutConflict?, if_neg hsame, if_neg hsame, conflict, if_pos h,
          Step.run_reject]

theorem run_checkConstant_of_strict (h : s.strict = true) (t : Tensor) (constant : Bool)
    (g : Graph) :
    checkConstant s t constant g = match constantConflict? t constant with
      | none => .ok () g
      | some e => .error (.input e) g := by
  unfold checkConstant constantConflict? conflict
  rw [if_pos h]
  split <;> rfl

theorem run_checkLayout_of_lenient (h : s.strict = false) (t : Tensor) (layout : Option Layout)
    (g : Graph) :
    ∃ ws, checkLayout s t layout g = .ok () { g with warnings := ws } := by
  cases layout with
  | none => exact ⟨g.warnings, rfl⟩
  | some l =>
      unfold checkLayout conflict
      rw [h]
      dsimp only
      split
      · exact ⟨g.warnings, rfl⟩
      · exact ⟨_, rfl⟩

theorem run_checkConstant_of_lenient (h : s.strict = false) (t : Tensor) (constant : Bool)
    (g : Graph) :
    ∃ ws, checkConstant s t constant g = .ok () { g with warnings := ws } := by
  unfold checkConstant conflict
  rw [h]
  split
  · exact ⟨_, rfl⟩
  · exact ⟨g.warnings, rfl⟩

/-! ## Requests -/

theorem request_of_error {e : ConversionError} (h : s.subgraph.tensor index = .error e) :
    request s index layout constant g = .error (.input e) g := by
  rw [request, h, Step.run_bind_of_error (Step.run_lift_error e g)]

theorem request_of_new (hd : s.subgraph.tensor index = .ok d) (h : g.lookup? d.name = none) :
    request s index layout constant g = .ok ⟨g.tensors.length⟩ (g.adding
      (.fresh d.name (some index.toInt.toNat) layout constant ⟨g.tensors.length⟩)) := by
  simp only [request, hd, Step.run_bind, Step.run_lift_ok, Step.run_get, h]
  exact run_addTensor rfl

/-- A registered tensor is checked against the request. -/
theorem request_of_registered (hd : s.subgraph.tensor index = .ok d)
    (hid : g.lookup? d.name = some id) (ht : g.tensors[id.index]? = some t) :
    request s index layout constant g = (do
      checkLayout s t layout
      checkConstant s t constant
      return id) g := by
  simp only [request, hd, Step.run_bind, Step.run_lift_ok, Step.run_get, hid, run_tensor ht]

theorem request_of_refused (hd : s.subgraph.tensor index = .ok d)
    (hid : g.lookup? d.name = some id) (ht : g.tensors[id.index]? = some t)
    {e : ConversionError} (h : refused? s t layout constant = some e) :
    request s index layout constant g = .error (.input e) g := by
  rw [request_of_registered hd hid ht]
  unfold refused? at h
  split at h
  · rename_i hstrict
    have hlayout := run_checkLayout_of_strict hstrict t layout g
    have hconstant := run_checkConstant_of_strict hstrict t constant g
    rcases Option.or_eq_some_iff.mp h with h | ⟨hnone, h⟩
    · rw [h] at hlayout
      exact Step.run_bind_of_error hlayout
    · rw [hnone] at hlayout
      rw [h] at hconstant
      exact Step.run_seq hlayout (Step.run_bind_of_error hconstant)
  · cases h

theorem request_of_granted (hd : s.subgraph.tensor index = .ok d)
    (hid : g.lookup? d.name = some id) (ht : g.tensors[id.index]? = some t)
    (h : refused? s t layout constant = none) :
    ∃ ws, request s index layout constant g = .ok id { g with warnings := ws } := by
  rw [request_of_registered hd hid ht]
  cases hstrict : s.strict with
  | true =>
      rw [refused?, if_pos hstrict] at h
      obtain ⟨hnone, hnone'⟩ := Option.or_eq_none_iff.mp h
      have hlayout := run_checkLayout_of_strict hstrict t layout g
      have hconstant := run_checkConstant_of_strict hstrict t constant g
      rw [hnone] at hlayout
      rw [hnone'] at hconstant
      exact ⟨g.warnings, Step.run_seq hlayout (Step.run_seq hconstant rfl)⟩
  | false =>
      obtain ⟨ws, hlayout⟩ := run_checkLayout_of_lenient hstrict t layout g
      obtain ⟨ws', hconstant⟩ := run_checkConstant_of_lenient hstrict t constant
        { g with warnings := ws }
      exact ⟨ws', Step.run_seq hlayout (Step.run_seq hconstant rfl)⟩

/-- A strict scope grants the registered layout only. -/
theorem layout_of_granted (h : refused? s t layout constant = none) (hstrict : s.strict = true)
    {l : Layout} (hl : layout = some l) : t.layout = some l := by
  rw [refused?, if_pos hstrict] at h
  have hlayout := (Option.or_eq_none_iff.mp h).1
  rw [hl, layoutConflict?] at hlayout
  split at hlayout
  · assumption
  · cases hlayout

/-- The ways in which a request for the tensor at an index of the source ends. -/
inductive Answer (s : Scope) (g : Graph) (index : Int64) (layout : Option Layout)
    (constant : Bool) : EStateM.Result Fault Graph TensorId → Prop
  /-- The index dangles. -/
  | dangling {e : ConversionError} (h : s.subgraph.tensor index = .error e) :
      Answer s g index layout constant (.error (.input e) g)
  /-- The name is registered for something else, and the scope minds. -/
  | refused {d : Source.TensorDecl} {id : TensorId} {t : Tensor} {e : ConversionError}
      (hd : s.subgraph.tensor index = .ok d) (hid : g.lookup? d.name = some id)
      (ht : g.tensors[id.index]? = some t) (h : refused? s t layout constant = some e) :
      Answer s g index layout constant (.error (.input e) g)
  /-- The name is registered; there may be a warning. -/
  | found {d : Source.TensorDecl} {id : TensorId} {t : Tensor} {ws : List Warning}
      (hd : s.subgraph.tensor index = .ok d) (ht : g.tensors[id.index]? = some t)
      (hname : t.name = d.name) (h : refused? s t layout constant = none) :
      Answer s g index layout constant (.ok id { g with warnings := ws })
  /-- The name is new. -/
  | created {d : Source.TensorDecl} (hd : s.subgraph.tensor index = .ok d)
      (hnew : g.lookup? d.name = none) :
      Answer s g index layout constant (.ok ⟨g.tensors.length⟩ (g.adding
        (.fresh d.name (some index.toInt.toNat) layout constant ⟨g.tensors.length⟩)))

theorem answer_request (s : Scope) (hg : g.Named) (index : Int64) (layout : Option Layout)
    (constant : Bool) : Answer s g index layout constant (request s index layout constant g) := by
  cases hd : s.subgraph.tensor index with
  | error e => exact request_of_error (g := g) hd ▸ .dangling hd
  | ok d =>
      cases hid : g.lookup? d.name with
      | none => exact request_of_new hd hid ▸ .created hd hid
      | some id =>
          obtain ⟨t, ht, hname⟩ := lookup?_eq_some hg hid
          cases hrefused : refused? s t layout constant with
          | some e => exact request_of_refused hd hid ht hrefused ▸ .refused hd hid ht hrefused
          | none =>
              obtain ⟨ws, hrun⟩ := request_of_granted hd hid ht hrefused
              exact hrun ▸ .found hd ht hname hrefused

end Relayout.Graph
