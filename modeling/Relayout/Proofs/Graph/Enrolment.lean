/-
# Names are only added

`Enrolls` says what may become of the names and identifiers of a graph: new names are
registered, and nothing else happens to the arena's entries or to the table.  It holds of
every step that a conversion is made of, however the step ends.  Steps on one tensor keep
its entry (`Tensor.SameEntry`), other changes touch neither structure, and the two ways to
register a tensor look its name up first.  The rules of `Step.Always` do the rest.
-/
import Relayout.Graph.Adaptation
import Relayout.Graph.Intake
import Relayout.Proofs.Graph.Answers
import Relayout.Proofs.Graph.Directory
import Relayout.Proofs.Tensor.Acceptance

namespace Relayout

open Step (Always)

/-! ## Steps on one tensor -/

namespace Tensor

/-- A tensor keeps its identifier and its name. -/
def SameEntry (t t' : Tensor) : Prop := t'.id = t.id ∧ t'.name = t.name

theorem SameEntry.trans {t t' t'' : Tensor} (h : t.SameEntry t') (h' : t'.SameEntry t'') :
    t.SameEntry t'' :=
  ⟨h'.1.trans h.1, h'.2.trans h.2⟩

instance : Std.Refl SameEntry := ⟨fun _ => ⟨rfl, rfl⟩⟩

variable {t t' : Tensor}

theorem sameEntry_advance {next : Status} (h : t.advance next = .ok t') : t.SameEntry t' := by
  obtain ⟨status, -, heq⟩ := bind_eq_ok.mp h
  cases heq
  exact ⟨rfl, rfl⟩

theorem sameEntry_coerceType {type : ElementType} (h : t.coerceType type = .ok t') :
    t.SameEntry t' := by
  unfold coerceType at h
  split at h
  · cases h
    exact ⟨rfl, rfl⟩
  · cases h

theorem sameEntry_setLayout {l : Layout} (h : t.setLayout l = .ok t') : t.SameEntry t' := by
  unfold setLayout at h
  split at h
  · cases h
  · cases h
    exact ⟨rfl, rfl⟩

theorem sameEntry_replaceProducer {old new : OpId} (h : t.replaceProducer old new = .ok t') :
    t.SameEntry t' := by
  unfold replaceProducer at h
  split at h
  · cases h
    exact ⟨rfl, rfl⟩
  · cases h

theorem sameEntry_replaceConsumer {old new : OpId} (h : t.replaceConsumer old new = .ok t') :
    t.SameEntry t' := by
  unfold replaceConsumer at h
  split at h
  · cases h
    exact ⟨rfl, rfl⟩
  · cases h

theorem sameEntry_permuted {l : Layout} (h : t.permuted l = .ok t') : t.SameEntry t' := by
  obtain ⟨data, -, h⟩ := bind_eq_ok.mp h
  obtain ⟨shape, -, h⟩ := bind_eq_ok.mp h
  cases h
  exact ⟨rfl, rfl⟩

theorem sameEntry_transform (h : t.transform = .ok t') : t.SameEntry t' := by
  unfold transform at h
  split at h
  · cases h
  · split at h
    · cases h
      exact ⟨rfl, rfl⟩
    · split at h
      · cases h
      · split at h
        · exact sameEntry_advance h
        · obtain ⟨u, hu, h⟩ := bind_eq_ok.mp h
          exact (sameEntry_permuted hu).trans (sameEntry_advance h)

end Tensor

namespace Graph

variable {α : Type} {g g' : Graph} {s : Scope}

/-! ## The relation -/

/-- From one graph to the next, new names are registered, each with the next identifier. -/
def Enrolls (g g' : Graph) : Prop := g.directory.Grows g'.directory

theorem Enrolls.of_eq (h : g'.directory = g.directory) : Enrolls g g' := by
  rw [Enrolls, h]
  exact .refl

instance : Std.Refl Enrolls := ⟨fun _ => .of_eq rfl⟩

instance : IsTrans Graph Enrolls := ⟨fun _ _ _ h h' => Relation.ReflTransGen.trans h h'⟩

/-- The registry is left alone: its arena and its table. -/
def SameRegistry (g g' : Graph) : Prop := g'.tensors = g.tensors ∧ g'.byName = g.byName

instance : Std.Refl SameRegistry := ⟨fun _ => ⟨rfl, rfl⟩⟩

instance : IsTrans Graph SameRegistry :=
  ⟨fun _ _ _ h h' => ⟨h'.1.trans h.1, h'.2.trans h.2⟩⟩

/-- The registry is left alone, or one tensor is registered: under a new name and with the
next identifier. -/
inductive Registers (g : Graph) : Graph → Prop
  | kept {g' : Graph} (h : SameRegistry g g') : Registers g g'
  | added {t : Tensor} (hid : t.id = ⟨g.tensors.length⟩) (hnew : g.lookup? t.name = none) :
      Registers g (g.adding t)

theorem Registers.enrolls (h : Registers g g') : Enrolls g g' := by
  cases h with
  | kept h => exact .of_eq (by rw [directory, h.1, h.2, directory])
  | added hid hnew => exact .single ⟨_, hnew, directory_adding hid⟩

/-! ## Requests -/

theorem sameRegistry_conflict (e : ConversionError) (w : Warning) :
    (conflict s e w).Always SameRegistry :=
  .ite (.reject e) fun _ => ⟨rfl, rfl⟩

theorem sameRegistry_checkLayout (t : Tensor) (layout : Option Layout) :
    (checkLayout s t layout).Always SameRegistry := by
  cases layout with
  | none => exact .pure ()
  | some l => exact .ite (.pure ()) (sameRegistry_conflict _ _)

theorem sameRegistry_checkConstant (t : Tensor) (constant : Bool) :
    (checkConstant s t constant).Always SameRegistry :=
  .ite (sameRegistry_conflict _ _) (.pure ())

/-- A request registers a tensor only if its name is not found. -/
theorem registers_request (index : Int64) (layout : Option Layout) (constant : Bool) :
    (request s index layout constant).Always Registers := by
  intro g
  cases hd : s.subgraph.tensor index with
  | error e =>
      rw [request_of_error hd]
      exact .kept ⟨rfl, rfl⟩
  | ok d =>
      cases hid : g.lookup? d.name with
      | none =>
          rw [request_of_new hd hid]
          exact .added rfl hid
      | some id =>
          have hchecks : (do
              let t ← tensor id
              checkLayout s t layout
              checkConstant s t constant
              return id : Step Graph TensorId).Always SameRegistry :=
            (Always.get.bind fun _ => .liftViolation _).bind fun t =>
              (sameRegistry_checkLayout t layout).bind fun _ =>
                (sameRegistry_checkConstant t constant).bind fun _ => .pure id
          simp only [request, hd, Step.run_bind_of_ok (Step.run_lift_ok d g),
            Step.run_bind_of_ok (Step.run_get g), hid]
          exact .kept (hchecks g)

/-! ## Synthesized tensors -/

/-- A synthesized tensor is registered only if its name is not found. -/
theorem registers_registered {name : String} {make : Step Graph (TensorId → Tensor)}
    (hmake : ∀ g, (∃ e, make g = .error e g) ∨
      ∃ f, make g = .ok f g ∧ ∀ id, (f id).id = id ∧ (f id).name = name) :
    (registered name make).Always Registers := by
  intro g
  unfold registered
  rw [Step.run_bind_of_ok (Step.run_get g)]
  cases hid : g.lookup? name with
  | some id => exact .kept ⟨rfl, rfl⟩
  | none =>
      rcases hmake g with ⟨e, he⟩ | ⟨f, hf, hentry⟩
      · simp only [Step.run_bind_of_error he]
        exact .kept ⟨rfl, rfl⟩
      · obtain ⟨hat, hname⟩ := hentry ⟨g.tensors.length⟩
        simp only [Step.run_bind_of_ok hf, run_addTensor hname]
        exact .added hat (by rw [hname, hid])

/-- Looking a tensor up changes nothing. -/
theorem run_tensor_cases (id : TensorId) (g : Graph) :
    (∃ e, tensor id g = .error e g) ∨ ∃ t, tensor id g = .ok t g := by
  cases ht : g.tensors[id.index]? with
  | some t => exact .inr ⟨t, run_tensor ht⟩
  | none => exact .inl ⟨_, by
      rw [tensor, Step.run_bind_of_ok (Step.run_get g), entryAt, ht]
      rfl⟩

theorem registers_derive (existing : TensorId) (name : String) (constant : Bool) :
    (derive existing name constant).Always Registers := by
  refine registers_registered fun g => ?_
  rcases run_tensor_cases existing g with ⟨e, he⟩ | ⟨t, ht⟩
  · exact .inl ⟨e, Step.run_bind_of_error he⟩
  · exact .inr ⟨_, Step.run_bind_of_ok ht, fun _ => ⟨rfl, rfl⟩⟩

theorem registers_vector (owner : String) (values : List Int) :
    (vector owner values).Always Registers :=
  registers_registered fun _ => .inr ⟨_, rfl, fun _ => ⟨rfl, rfl⟩⟩

theorem registers_scalar (reference : TensorId) (value : Nat) :
    (scalar reference value).Always Registers := by
  intro g
  unfold scalar
  rcases run_tensor_cases reference g with ⟨e, he⟩ | ⟨t, ht⟩
  · simp only [Step.run_bind, he]
    exact .kept ⟨rfl, rfl⟩
  · simp only [Step.run_bind, ht]
    cases t.typed with
    | error v => exact .kept ⟨rfl, rfl⟩
    | ok type =>
        refine registers_registered (fun _ => ?_) g
        exact .inr ⟨_, rfl, fun _ => ⟨rfl, rfl⟩⟩

/-! ## Editing -/

variable {id : TensorId}

theorem enrolls_tensor (id : TensorId) : (tensor id).Always Enrolls :=
  Always.get.bind fun _ => .liftViolation _

theorem enrolls_op (id : OpId) : (op id).Always Enrolls :=
  Always.get.bind fun _ => .liftViolation _

theorem enrolls_onTensor {step : Step Tensor α} (h : step.Always Tensor.SameEntry) :
    (onTensor id step).Always Enrolls := by
  unfold onTensor
  refine .onEntry fun g t ht => .of_eq ?_
  rw [directory, directory, map_set_of_eq ht (Prod.ext (h t).1 (h t).2)]

theorem enrolls_changeTensor {change : Tensor → Tensor}
    (h : ∀ t : Tensor, t.SameEntry (change t)) :
    (changeTensor id change).Always Enrolls :=
  enrolls_onTensor h

theorem enrolls_setShape (shape : Tensor → List Nat) :
    (changeTensor id fun t => { t with shape := shape t }).Always Enrolls :=
  enrolls_changeTensor fun _ => ⟨rfl, rfl⟩

theorem enrolls_addProducer (op : OpId) :
    (changeTensor id (·.addProducer op)).Always Enrolls :=
  enrolls_changeTensor fun _ => ⟨rfl, rfl⟩

theorem enrolls_addConsumer (op : OpId) :
    (changeTensor id (·.addConsumer op)).Always Enrolls :=
  enrolls_changeTensor fun _ => ⟨rfl, rfl⟩

theorem enrolls_removeConsumer (op : OpId) :
    (changeTensor id (·.removeConsumer op)).Always Enrolls :=
  enrolls_changeTensor fun _ => ⟨rfl, rfl⟩

theorem enrolls_updateTensor {change : Tensor → Except Violation Tensor}
    (h : ∀ t t' : Tensor, change t = .ok t' → t.SameEntry t') :
    (updateTensor id change).Always Enrolls :=
  enrolls_onTensor (.update h)

theorem enrolls_onOp (id : OpId) (step : Step Operator α) : (onOp id step).Always Enrolls :=
  .onEntry fun _ _ _ => .of_eq rfl

theorem enrolls_changeOp (id : OpId) (change : Operator → Operator) :
    (changeOp id change).Always Enrolls :=
  enrolls_onOp id _

theorem enrolls_updateOp (id : OpId) (change : Operator → Except Violation Operator) :
    (updateOp id change).Always Enrolls :=
  enrolls_onOp id _

theorem enrolls_modify {f : Graph → Graph} (h : ∀ g, (f g).directory = g.directory) :
    (modify f : Step Graph PUnit).Always Enrolls :=
  fun g => .of_eq (h g)

theorem enrolls_addOp (o : Operator) : (addOp o).Always Enrolls := fun _ => .of_eq rfl

theorem enrolls_synthesize (kind : Kind) (name : String) :
    (synthesize kind name).Always Enrolls :=
  fun _ => .of_eq rfl

theorem enrolls_warn (w : Warning) : (warn w).Always Enrolls := enrolls_modify fun _ => rfl

theorem enrolls_request (index : Int64) (layout : Option Layout) (constant : Bool) :
    (request s index layout constant).Always Enrolls :=
  (registers_request index layout constant).mono fun _ _ => Registers.enrolls

theorem enrolls_requestParsed (index : Int64) (layout : Option Layout) (constant : Bool) :
    (requestParsed s index layout constant).Always Enrolls :=
  (enrolls_request index layout constant).bind fun _ =>
    (enrolls_onTensor (Tensor.entry_parse s)).bind fun _ => .pure _

theorem enrolls_derive (existing : TensorId) (name : String) (constant : Bool) :
    (derive existing name constant).Always Enrolls :=
  (registers_derive existing name constant).mono fun _ _ => Registers.enrolls

theorem enrolls_vector (owner : String) (values : List Int) :
    (vector owner values).Always Enrolls :=
  (registers_vector owner values).mono fun _ _ => Registers.enrolls

/-! ## Taking in the source -/

theorem enrolls_declaration (id : OpId) : (declaration s id).Always Enrolls := by
  refine (enrolls_op id).bind fun operator => ?_
  split
  · exact .violate _
  · exact (Always.liftViolation _).bind fun _ => .pure _

theorem enrolls_takeInput (id : OpId) (slot : Nat) (layout : Option Layout) (constant : Bool) :
    (takeInput s id slot layout constant).Always Enrolls :=
  (enrolls_declaration id).bind fun _ => (Always.liftViolation _).bind fun _ =>
    (enrolls_requestParsed _ _ _).bind fun _ => (enrolls_addConsumer id).bind fun _ =>
      (enrolls_changeOp _ _).bind fun _ => .pure _

theorem enrolls_takeOutput (id : OpId) (slot : Nat) (layout : Option Layout) :
    (takeOutput s id slot layout).Always Enrolls :=
  (enrolls_declaration id).bind fun _ => (Always.liftViolation _).bind fun _ =>
    (enrolls_requestParsed _ _ _).bind fun _ => (enrolls_addProducer id).bind fun _ =>
      (enrolls_changeOp _ _).bind fun _ => .pure _

theorem enrolls_finish (id : OpId) (output : TensorId) : (finish id output).Always Enrolls :=
  (enrolls_tensor output).bind fun _ => enrolls_updateOp id _

theorem enrolls_checkActivationRank (id : TensorId) :
    (checkActivationRank id).Always Enrolls :=
  (enrolls_tensor id).bind fun _ => .expect _ _

theorem enrolls_kernelSize (weights : TensorId) : (kernelSize weights).Always Enrolls := by
  refine (enrolls_tensor weights).bind fun _ => ?_
  split
  · exact .pure _
  · exact .reject _

theorem enrolls_takeBias (id : OpId) (decl : Source.OperatorDecl) :
    (takeBias s id decl).Always Enrolls :=
  .ite (enrolls_takeInput id 2 none true).discard (.pure ())

theorem enrolls_parseConv (id : OpId) : (parseConv s id).Always Enrolls := by
  refine (enrolls_declaration id).bind fun source => (Always.require _ _).bind fun _ => ?_
  refine (Always.lift _).bind fun _ => (Always.lift _).bind fun _ => ?_
  refine (Always.lift _).bind fun _ => (enrolls_takeInput id 0 _ false).bind fun x => ?_
  refine (enrolls_checkActivationRank x).bind fun _ => ?_
  refine (enrolls_takeInput id 1 _ true).bind fun w => (enrolls_kernelSize w).bind fun _ => ?_
  refine (enrolls_takeBias id _).bind fun _ => (enrolls_takeOutput id 0 _).bind fun y => ?_
  refine (enrolls_checkActivationRank y).bind fun _ => ?_
  exact (enrolls_changeOp id _).bind fun _ => enrolls_finish id y

theorem enrolls_normalizeShape (id : TensorId) : (normalizeShape id).Always Enrolls := by
  refine (enrolls_updateTensor fun _ _ => Tensor.sameEntry_coerceType).bind fun _ => ?_
  refine (enrolls_tensor id).bind fun t => .ite ?_ (.pure ())
  exact (enrolls_warn _).bind fun _ => .ite (enrolls_setShape _) (.pure ())

theorem enrolls_takeShape (id : OpId) (index : Nat) (decl : Source.OperatorDecl) :
    (takeShape s id index decl).Always Enrolls := by
  refine .ite ((enrolls_takeInput id 1 none false).bind enrolls_normalizeShape) ?_
  refine (Always.lift _).bind fun _ => (Always.liftViolation _).bind fun _ => ?_
  refine (Always.lift _).bind fun _ => (enrolls_vector _ _).bind fun _ => ?_
  exact (enrolls_addConsumer id).bind fun _ => enrolls_changeOp id _

theorem enrolls_parseReshape (id : OpId) : (parseReshape s id).Always Enrolls := by
  refine (enrolls_declaration id).bind fun source => (Always.require _ _).bind fun _ => ?_
  refine (Always.lift _).bind fun _ => (Always.lift _).bind fun _ => ?_
  refine (enrolls_takeInput id 0 none false).discard.bind fun _ => ?_
  refine (enrolls_takeShape id _ _).bind fun _ => ?_
  exact (enrolls_takeOutput id 0 none).bind fun y => enrolls_finish id y

theorem enrolls_parseOp (id : OpId) : (parseOp s id).Always Enrolls := by
  refine (enrolls_op id).bind fun operator => .ite (.pure ()) ?_
  split
  · exact enrolls_parseConv id
  · exact enrolls_parseReshape id
  · exact .violate _

theorem enrolls_applyExplicitLayout (name : String) (e : ExplicitLayout) :
    (applyExplicitLayout s name e).Always Enrolls := by
  unfold applyExplicitLayout
  split
  · exact .reject _
  · refine (Always.lift _).bind fun l => (enrolls_requestParsed _ _ _).bind fun id => ?_
    exact (enrolls_tensor id).bind fun _ => .expect _ _

theorem enrolls_applyExplicitLayouts (layouts : SortedMap ExplicitLayout) :
    (applyExplicitLayouts s layouts).Always Enrolls :=
  .forM fun entry _ => enrolls_applyExplicitLayout entry.1 entry.2

theorem enrolls_takeOp (index : Nat) (decl : Source.OperatorDecl) :
    (takeOp s index decl).Always Enrolls :=
  (Always.lift _).bind fun _ => (enrolls_addOp _).bind fun id =>
    (enrolls_parseOp id).bind fun _ => enrolls_modify fun _ => rfl

theorem enrolls_takeBoundary (indices : List UInt64) :
    (takeBoundary s indices).Always Enrolls :=
  .mapM fun _ _ => enrolls_requestParsed _ none false

theorem enrolls_parse (s : Scope) : (parse s).Always Enrolls := by
  refine (Always.forM fun entry _ => enrolls_takeOp entry.2 entry.1).bind fun _ => ?_
  refine (enrolls_takeBoundary _).bind fun inputs => ?_
  refine (enrolls_modify (f := fun g => { g with inputs := inputs }) fun _ => rfl).bind fun _ => ?_
  exact (enrolls_takeBoundary _).bind fun _ => enrolls_modify fun _ => rfl

/-! ## Rewriting -/

theorem enrolls_complete (id : TensorId) (shape : List Nat) (l : Layout) :
    (complete id shape l).Always Enrolls :=
  (enrolls_setShape _).bind fun _ =>
    (enrolls_updateTensor fun _ _ => Tensor.sameEntry_setLayout).bind fun _ =>
      enrolls_updateTensor fun _ _ => Tensor.sameEntry_advance

theorem enrolls_readInstead (reader : OpId) (operand moved : TensorId) :
    (readInstead reader operand moved).Always Enrolls :=
  (enrolls_removeConsumer reader).bind fun _ => (enrolls_updateOp _ _).bind fun _ =>
    enrolls_addConsumer reader

theorem enrolls_transposeBefore (reader : OpId) (operand moved : TensorId) (perm : List Nat)
    (name : String) : (transposeBefore reader operand moved perm name).Always Enrolls := by
  refine (enrolls_synthesize _ name).bind fun turn => (enrolls_changeOp turn _).bind fun _ => ?_
  refine (enrolls_updateTensor fun _ _ => Tensor.sameEntry_replaceConsumer).bind fun _ => ?_
  refine (enrolls_updateOp reader _).bind fun _ => (enrolls_changeOp turn _).bind fun _ => ?_
  refine (enrolls_addProducer turn).bind fun _ => ?_
  refine (enrolls_addConsumer reader).bind fun _ => ?_
  refine (enrolls_updateOp turn _).bind fun _ => ?_
  exact (enrolls_changeOp reader _).bind fun _ => .pure turn

theorem enrolls_transposeAfter (writer : OpId) (operand moved : TensorId) (perm : List Nat)
    (name : String) : (transposeAfter writer operand moved perm name).Always Enrolls := by
  refine (enrolls_synthesize _ name).bind fun turn => (enrolls_changeOp turn _).bind fun _ => ?_
  refine (enrolls_updateTensor fun _ _ => Tensor.sameEntry_replaceProducer).bind fun _ => ?_
  refine (enrolls_updateOp writer _).bind fun _ => (enrolls_changeOp turn _).bind fun _ => ?_
  refine (enrolls_addProducer writer).bind fun _ => ?_
  refine (enrolls_addConsumer turn).bind fun _ => ?_
  refine (enrolls_updateOp turn _).bind fun _ => ?_
  exact (enrolls_changeOp writer _).bind fun _ => .pure turn

theorem enrolls_preserveInput (id : OpId) (slot : Nat) :
    (preserveInput id slot).Always Enrolls := by
  refine (enrolls_op id).bind fun operator => (Always.require _ _).bind fun _ => ?_
  refine (Always.liftViolation _).bind fun operand => (enrolls_tensor operand).bind fun t => ?_
  refine (Always.lift _).bind fun l => (Always.liftViolation _).bind fun shape => ?_
  refine Always.get.bind fun g => ?_
  split
  · exact (enrolls_readInstead _ _ _).bind fun _ => (enrolls_op _).bind fun _ => .pure _
  · refine (enrolls_derive _ _ _).bind fun moved => (enrolls_complete _ _ _).bind fun _ => ?_
    exact enrolls_transposeBefore _ _ _ _ _

theorem enrolls_preserveOutput (id : OpId) (slot : Nat) :
    (preserveOutput id slot).Always Enrolls := by
  refine (enrolls_op id).bind fun operator => (Always.require _ _).bind fun _ => ?_
  refine (Always.liftViolation _).bind fun operand => (enrolls_tensor operand).bind fun t => ?_
  refine (Always.lift _).bind fun l => (Always.liftViolation _).bind fun shape => ?_
  refine (enrolls_derive _ _ _).bind fun moved => (enrolls_complete _ _ _).bind fun _ => ?_
  exact enrolls_transposeAfter _ _ _ _ _

theorem enrolls_liftRank (id : OpId) (slot : Nat) (l : Layout) :
    (liftRank id slot l).Always Enrolls := by
  refine (enrolls_op id).bind fun operator => (Always.require _ _).bind fun _ => ?_
  refine (Always.liftViolation _).bind fun operand => (enrolls_tensor operand).bind fun t => ?_
  refine (Always.expect _ _).bind fun _ => (enrolls_derive _ _ _).bind fun lifted => ?_
  refine (enrolls_vector _ _).bind fun values => (enrolls_complete _ _ _).bind fun _ => ?_
  refine (enrolls_synthesize _ _).bind fun reshape => (enrolls_changeOp _ _).bind fun _ => ?_
  refine (enrolls_updateTensor fun _ _ => Tensor.sameEntry_replaceConsumer).bind fun _ => ?_
  refine (enrolls_addConsumer reshape).bind fun _ => ?_
  refine (enrolls_updateOp _ _).bind fun _ => ?_
  refine (enrolls_changeOp _ _).bind fun _ => ?_
  refine (enrolls_addProducer reshape).bind fun _ => ?_
  refine (enrolls_addConsumer id).bind fun _ => ?_
  refine (enrolls_updateOp _ _).bind fun _ => ?_
  exact (enrolls_changeOp _ _).bind fun _ => .pure _

theorem enrolls_adaptLift (operator : Operator) (input output : TensorId) :
    (adaptLift operator input output).Always Enrolls := by
  refine (enrolls_tensor _).bind fun _ => (enrolls_tensor _).bind fun _ => ?_
  refine (Always.require _ _).bind fun _ => (Always.lift _).bind fun l => ?_
  refine (Always.liftViolation _).bind fun shape => (enrolls_tensor _).bind fun t => ?_
  split
  · exact .reject _
  · exact (Always.liftViolation _).bind fun _ => enrolls_changeTensor fun _ => ⟨rfl, rfl⟩

theorem enrolls_adapt (id : OpId) (operator : Operator) : (adapt id operator).Always Enrolls := by
  unfold adapt
  split
  · exact .pure _
  · exact .pure _
  · refine (Always.liftViolation _).bind fun input => ?_
    refine (Always.liftViolation _).bind fun output => ?_
    refine .ite (enrolls_adaptLift _ _ _) (Always.bind ?_ fun _ => ?_)
    · exact (enrolls_tensor _).bind fun _ => .ite (enrolls_preserveInput _ _).discard (.pure ())
    · exact (enrolls_tensor _).bind fun _ => .ite (enrolls_preserveOutput _ _).discard (.pure ())

theorem enrolls_transformOp (id : OpId) : (transformOp id).Always Enrolls := by
  refine (enrolls_op id).bind fun operator => (Always.require _ _).bind fun _ => ?_
  exact .ite (.pure ()) ((enrolls_adapt _ _).bind fun _ => enrolls_updateOp _ _)

theorem enrolls_transform : transform.Always Enrolls := by
  refine Always.get.bind fun g => ?_
  refine (Always.forM fun _ _ => enrolls_updateTensor fun _ _ => Tensor.sameEntry_transform).bind
    fun _ => Always.get.bind fun g => ?_
  exact .forM fun _ _ => enrolls_transformOp _

end Graph

end Relayout
