/-
# Reading again after a failure

A tensor that could not be read keeps what was read of it and is not marked as
read, so every later reference to it reads again.  What comes before the element
type fails again as it failed before.  The element type itself is the one part that
cannot be read twice: once it is there, a second reading stops at it with a broken
invariant, whatever the input was to blame for at first (`parse_again`).  The graph
passes this on to whoever refers to the tensor (`onTensor_parse_again`).
-/
import Relayout.Graph.Intake
import Relayout.Proofs.Graph.Answers
import Relayout.Proofs.Tensor.Acceptance

namespace Relayout

namespace Tensor

variable {s : Scope} {t t' : Tensor} {e : ConversionError}

/-- Reading the tensor gets as far as its element type. -/
def ReachesType (s : Scope) (t : Tensor) : Prop :=
  ∃ k d, t.sourceIndex = some k ∧ s.subgraph.tensor (.ofNat k) = .ok d ∧
    (∀ n ∈ d.shape, 0 ≤ n.toInt) ∧ d.elementType.converted?.isSome = true

/-- Reading stopped at the shape or at the element type. -/
theorem not_reachesType {k : Nat} {d : Source.TensorDecl} (hk : t.sourceIndex = some k)
    (hd : s.subgraph.tensor (.ofNat k) = .ok d)
    (h : (∃ e, t.declaredShape d = .error e) ∨ ∃ e, t.declaredType d = .error e) :
    ¬t.ReachesType s := by
  rintro ⟨k', d', hk', hd', hnonneg, hconverted⟩
  obtain rfl := Option.some.inj (hk.symm.trans hk')
  obtain rfl : d = d' := by
    rw [hd] at hd'
    exact Except.ok.inj hd'
  obtain ⟨e, he⟩ | ⟨e, he⟩ := h
  · rw [declaredShape_of_nonneg hnonneg] at he
    cases he
  · obtain ⟨type, htype⟩ := Option.isSome_iff_exists.mp hconverted
    rw [declaredType_of_converted? htype] at he
    cases he

/-- A second reading changes nothing any more: it stops at the element type if the
first one got there, and where the first one stopped if not. -/
theorem parse_again (h : parse s t = .error (.input e) t') :
    t'.name = t.name ∧ t'.layout = t.layout ∧ t'.status.isParsed = false ∧
    ∃ r, parse s t' = .error r t' ∧
      (t.ReachesType s → r = .invariant (.typedTwice t.name)) ∧
      (¬t.ReachesType s → r = .input e) := by
  have hreading := reading_parse s t
  rw [h] at hreading
  cases hreading with
  | undeclared hopen hk hd =>
      refine ⟨rfl, rfl, hopen, _, h, fun ⟨k, d, hk', hd', _⟩ => ?_, fun _ => rfl⟩
      obtain rfl := Option.some.inj (hk.symm.trans hk')
      rw [hd] at hd'
      cases hd'
  | shapeless hopen hk hd hshape =>
      exact ⟨rfl, rfl, hopen, _, h,
        fun hreach => absurd hreach (not_reachesType hk hd (.inl ⟨_, hshape⟩)), fun _ => rfl⟩
  | typeless hopen hk hd hshape htype =>
      exact ⟨rfl, rfl, hopen, _, parse_of_type_error hopen hk hd hshape htype,
        fun hreach => absurd hreach (not_reachesType hk hd (.inr ⟨_, htype⟩)), fun _ => rfl⟩
  | misfit hopen hk hd hshape htype hform =>
      obtain ⟨hnonneg, rfl⟩ := declaredShape_eq_ok hshape
      have hconverted := declaredType_eq_ok htype
      obtain ⟨_, _, _, _, rfl⟩ := hform
      exact ⟨rfl, rfl, hopen, _,
        parse_of_typed hopen hk hd (declaredShape_of_nonneg hnonneg)
          (declaredType_of_converted? hconverted) rfl,
        fun _ => rfl,
        fun hstops => absurd ⟨_, _, hk, hd, hnonneg, by rw [hconverted]; rfl⟩ hstops⟩

end Tensor

namespace Graph

variable {s : Scope} {g : Graph} {id : TensorId} {t : Tensor} {d : Source.TensorDecl}
  {index : Int64} {r : Fault} {layout : Option Layout} {constant : Bool} {α : Type}

/-! ## References to a tensor that cannot be read -/

/-- A step stops with a fault; it leaves no more than warnings. -/
def Refuses (g : Graph) (x : Step Graph α) (r : Fault) : Prop :=
  ∃ ws, x g = .error r { g with warnings := ws }

/-- The steps of the intake that refer to the tensor at an index of the source, with
the layout and the role that they take it for. -/
inductive Reference (s : Scope) (g : Graph) (index : Int64) :
    {α : Type} → Option Layout → Bool → Step Graph α → Prop
  | request (layout : Option Layout) (constant : Bool) :
      Reference s g index layout constant (requestParsed s index layout constant)
  | input {op : OpId} {n slot : Nat} {decl : Source.OperatorDecl} (layout : Option Layout)
      (constant : Bool) (hop : declaration s op g = .ok (n, decl) g)
      (h : decl.inputs[slot]? = some index) :
      Reference s g index layout constant (takeInput s op slot layout constant)
  | output {op : OpId} {n slot : Nat} {decl : Source.OperatorDecl} (layout : Option Layout)
      (hop : declaration s op g = .ok (n, decl) g) (h : decl.outputs[slot]? = some index) :
      Reference s g index layout false (takeOutput s op slot layout)
  | boundary {i : UInt64} (rest : List UInt64) (h : i.toInt64 = index) :
      Reference s g index none false (takeBoundary s (i :: rest))

/-- What a reference to a tensor stops with whose reading stops with `r`: the request
comes first. -/
def refusal (s : Scope) (t : Tensor) (layout : Option Layout) (constant : Bool) (r : Fault) :
    Fault :=
  (refused? s t layout constant).elim r .input

theorem Refuses.bind {β : Type} {x : Step Graph α} (h : g.Refuses x r) (f : α → Step Graph β) :
    g.Refuses (x >>= f) r := by
  obtain ⟨ws, hx⟩ := h
  exact ⟨ws, Step.run_bind_of_error hx⟩

theorem Refuses.after {β : Type} {x : Step Graph α} {a : α} (hx : x g = .ok a g)
    {f : α → Step Graph β} (h : g.Refuses (f a) r) : g.Refuses (x >>= f) r := by
  obtain ⟨ws, hf⟩ := h
  exact ⟨ws, (Step.run_bind_of_ok hx).trans hf⟩

/-- Reading stops where it stopped before. -/
theorem run_onTensor_parse (ht : g.tensors[id.index]? = some t)
    (hread : Tensor.parse s t = .error r t) : onTensor id (Tensor.parse s) g = .error r g := by
  obtain ⟨hlt, rfl⟩ := List.getElem?_eq_some_iff.mp ht
  simp only [onTensor, Step.onEntry, ht, hread, List.set_getElem_self]

/-- A tensor whose reading failed keeps what was read of it. -/
theorem onTensor_eq_error {step : Step Tensor α} {e : ConversionError} {g' : Graph}
    (h : onTensor id step g = .error (.input e) g') :
    ∃ t t', g.tensors[id.index]? = some t ∧ step t = .error (.input e) t' ∧
      g' = { g with tensors := g.tensors.set id.index t' } := by
  unfold onTensor Step.onEntry at h
  split at h
  · cases h
  · rename_i t ht
    split at h
    · cases h
    · rename_i t' hstep
      cases h
      exact ⟨t, t', ht, hstep, rfl⟩

theorem refuses_requestParsed (hd : s.subgraph.tensor index = .ok d)
    (hid : g.lookup? d.name = some id) (ht : g.tensors[id.index]? = some t)
    (hread : Tensor.parse s t = .error r t) (layout : Option Layout) (constant : Bool) :
    g.Refuses (requestParsed s index layout constant) (refusal s t layout constant r) := by
  unfold refusal
  cases hrefused : refused? s t layout constant with
  | some e => exact ⟨g.warnings, Step.run_bind_of_error (request_of_refused hd hid ht hrefused)⟩
  | none =>
      obtain ⟨ws, hrun⟩ := request_of_granted hd hid ht hrefused
      have hread := run_onTensor_parse (g := { g with warnings := ws }) ht hread
      exact ⟨ws, Step.run_seq hrun (Step.run_bind_of_error hread)⟩

theorem refuses_of_reference {x : Step Graph α} (hx : Reference s g index layout constant x)
    (hd : s.subgraph.tensor index = .ok d) (hid : g.lookup? d.name = some id)
    (ht : g.tensors[id.index]? = some t) (hread : Tensor.parse s t = .error r t) :
    g.Refuses x (refusal s t layout constant r) := by
  have hrequest := refuses_requestParsed hd hid ht hread
  cases hx with
  | request layout constant => exact hrequest layout constant
  | input layout constant hop h =>
      refine .after hop (.after ?_ ((hrequest layout constant).bind _))
      rw [entryAt_of_getElem? h]
      rfl
  | output layout hop h =>
      refine .after hop (.after ?_ ((hrequest layout false).bind _))
      rw [entryAt_of_getElem? h]
      rfl
  | boundary rest h =>
      subst h
      rw [takeBoundary, List.mapM_cons]
      exact (hrequest none false).bind _

/-! ## Asking again -/

/-- A tensor whose reading failed may be asked for again.  It was not marked as read, and
every reference to it is refused from then on: by the error that it failed with,
if that came before the element type, by a broken invariant otherwise. -/
theorem onTensor_parse_again {g' : Graph} {e : ConversionError}
    (h : onTensor id (Tensor.parse s) g = .error (.input e) g') :
    ∃ t t' r, g.tensors[id.index]? = some t ∧
      g' = { g with tensors := g.tensors.set id.index t' } ∧
      t'.name = t.name ∧ t'.layout = t.layout ∧ t'.status.isParsed = false ∧
      (t.ReachesType s → r = .invariant (.typedTwice t.name)) ∧
      (¬t.ReachesType s → r = .input e) ∧
      onTensor id (Tensor.parse s) g' = .error r g' ∧
      ∀ (index : Int64) (d : Source.TensorDecl) (layout : Option Layout) (constant : Bool)
        (α : Type) (x : Step Graph α), s.subgraph.tensor index = .ok d →
        g'.lookup? d.name = some id → Reference s g' index layout constant x →
        g'.Refuses x (refusal s t' layout constant r) := by
  obtain ⟨t, t', ht, hread, rfl⟩ := onTensor_eq_error h
  obtain ⟨hname, hlayout, hopen, r, hagain, hreaches, hstops⟩ := Tensor.parse_again hread
  have ht' : (g.tensors.set id.index t')[id.index]? = some t' :=
    List.getElem?_set_self (List.getElem?_eq_some_iff.mp ht).1
  refine ⟨t, t', r, ht, rfl, hname, hlayout, hopen, hreaches, hstops,
    run_onTensor_parse ht' hagain, ?_⟩
  intro index d layout constant α x hd hid hx
  exact refuses_of_reference hx hd hid ht' hagain

/-- A value quantized by channel. -/
def channelwiseDecl : Source.TensorDecl :=
  ⟨"x", [1, 2], .uint8, 0, some ⟨[0x3f800000, 0x40000000], [0, 0]⟩⟩

def channelwiseScope : Scope where
  model := ⟨3, none, [], [[]], []⟩
  subgraph := ⟨none, [channelwiseDecl], [], [0], []⟩
  strict := true

theorem onTensor_parse_again_channelwise : ∃ g g' : Graph,
    onTensor ⟨0⟩ (Tensor.parse channelwiseScope) g =
      .error (.input (.multiElementQuantization "x" 2)) g' ∧
    g'.lookup? "x" = some ⟨0⟩ ∧
    g'.Refuses (takeBoundary channelwiseScope [0]) (.invariant (.typedTwice "x")) := by
  have hrun : onTensor ⟨0⟩ (Tensor.parse channelwiseScope)
      (Graph.empty.adding (.fresh "x" (some 0) none false ⟨0⟩)) =
      .error (.input (.multiElementQuantization "x" 2)) _ := rfl
  obtain ⟨t, t', r, ht, -, -, -, -, htwice, -, -, hrefuses⟩ := onTensor_parse_again hrun
  obtain rfl : .fresh "x" (some 0) none false ⟨0⟩ = t := Option.some.inj ht
  have hnonneg : ∀ n ∈ channelwiseDecl.shape, 0 ≤ n.toInt :=
    List.forall_mem_cons.mpr ⟨by decide, List.forall_mem_singleton.mpr (by decide)⟩
  obtain rfl := htwice ⟨0, channelwiseDecl, rfl, rfl, hnonneg, rfl⟩
  exact ⟨_, _, hrun, rfl, hrefuses 0 channelwiseDecl none false _ _ rfl rfl (.boundary [] rfl)⟩

/-- Asked for twice, the tensor is first refused for its quantization and then for its
element type. -/
theorem parse_again_typedTwice : ∃ t t' : Tensor,
    request channelwiseScope 0 none false .empty = .ok ⟨0⟩ (Graph.empty.adding t) ∧
    Tensor.parse channelwiseScope t = .error (.input (.multiElementQuantization "x" 2)) t' ∧
    Tensor.parse channelwiseScope t' = .error (.invariant (.typedTwice "x")) t' :=
  ⟨_, _, rfl, rfl, rfl⟩

end Graph

end Relayout
