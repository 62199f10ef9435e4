/-
# Strict and lenient runs

How conflicts are treated is looked at in one place only, `Graph.conflict`.  So
a strict and a lenient run from one graph do the same, step by step, up to the
first conflict; there the strict run stops with the error whose report the
lenient run goes on with.  `Parting` compares two runs from a graph, `Agree` two
steps; each step of a conversion agrees with itself, or with its lenient form.
-/
import Relayout.Conversion
import Relayout.Proofs.Aftermath

namespace Relayout

namespace Warning

/-- The error that a strict conversion stops with in place of the report. -/
def conflict? : Warning → Option ConversionError
  | .keptLayout tensor registered requested => some (.layoutConflict tensor registered requested)
  | .keptRuntimeValue tensor => some (.initializerConflict tensor)
  | .shapeOperandRank _ _ => none

/-- The report of a conflict, known by how its text ends. -/
def IsConflict (w : Warning) : Prop :=
  "keeping the registered layout".toList <:+ w.message.toList ∨
    "keeping it as a runtime value".toList <:+ w.message.toList

instance (w : Warning) : Decidable w.IsConflict :=
  inferInstanceAs (Decidable (_ ∨ _))

/-- The text of the report begins with that of the error. -/
theorem message_of_conflict? {w : Warning} {e : ConversionError} (h : w.conflict? = some e) :
    w.message = e.message ++ "; keeping the registered layout" ∨
      w.message = e.message ++ "; keeping it as a runtime value" := by
  cases w with
  | keptLayout tensor registered requested =>
      cases h
      exact Or.inl rfl
  | keptRuntimeValue tensor =>
      cases h
      exact Or.inr rfl
  | shapeOperandRank tensor rank => cases h

theorem isConflict_of_conflict? {w : Warning} {e : ConversionError} (h : w.conflict? = some e) :
    w.IsConflict := by
  rcases message_of_conflict? h with hm | hm
  · refine Or.inl ⟨e.message.toList ++ "; ".toList, ?_⟩
    rw [hm, String.toList_append, List.append_assoc]
    rfl
  · refine Or.inr ⟨e.message.toList ++ "; ".toList, ?_⟩
    rw [hm, String.toList_append, List.append_assoc]
    rfl

/-- The report on a shape operand ends otherwise. -/
theorem not_isConflict_shapeOperandRank (tensor : String) (rank : Nat) :
    ¬(Warning.shapeOperandRank tensor rank).IsConflict := by
  have hends : "flattening initializers and leaving runtime values as they are".toList <:+
      (Warning.shapeOperandRank tensor rank).message.toList := by
    refine ⟨("Shape operand " ++ tensor ++
      s!" has rank {rank}; runtimes only accept rank-1 shapes, ").toList, ?_⟩
    rw [← String.toList_append]
    rfl
  rintro (h | h)
  · exact absurd (List.suffix_of_suffix_length_le h hends (by decide)) (by decide)
  · exact absurd (List.suffix_of_suffix_length_le h hends (by decide)) (by decide)

theorem isConflict_iff {w : Warning} : w.IsConflict ↔ ∃ e, w.conflict? = some e := by
  constructor
  · intro h
    cases w with
    | keptLayout tensor registered requested => exact ⟨_, rfl⟩
    | keptRuntimeValue tensor => exact ⟨_, rfl⟩
    | shapeOperandRank tensor rank => exact absurd h (not_isConflict_shapeOperandRank tensor rank)
  · rintro ⟨e, he⟩
    exact isConflict_of_conflict? he

end Warning

/-- The scope with another way to treat conflicts. -/
def Scope.treating (s : Scope) (strict : Bool) : Scope := { s with strict := strict }

namespace Graph

variable {α β : Type} {g : Graph} {s : Scope}

/-- How a strict and a lenient run from `g` end: both the same and without a
conflict, or the strict one with the error of the first conflict that the
lenient one reports. -/
inductive Parting (g : Graph) : EStateM.Result Fault Graph α → EStateM.Result Fault Graph α → Prop
  | together {r : EStateM.Result Fault Graph α} (reports : List Warning)
      (hreports : (Step.after r).warnings = g.warnings ++ reports)
      (hplain : ∀ w ∈ reports, w.conflict? = none) : Parting g r r
  | parted {e : ConversionError} {g' : Graph} {r : EStateM.Result Fault Graph α} {w : Warning}
      (reports more : List Warning)
      (hreports : (Step.after r).warnings = g.warnings ++ (reports ++ w :: more))
      (hplain : ∀ w ∈ reports, w.conflict? = none) (hconflict : w.conflict? = some e) :
      Parting g (.error (.input e) g') r

/-- A strict and a lenient step agree from every graph. -/
def Agree (x x' : Step Graph α) : Prop := ∀ g, Parting g (x g) (x' g)

/-- Reports are only added. -/
theorem Parting.grows {r r' : EStateM.Result Fault Graph α} (h : Parting g r r') :
    ∃ more, (Step.after r').warnings = g.warnings ++ more := by
  cases h with
  | together reports hreports _ => exact ⟨reports, hreports⟩
  | parted reports more hreports _ _ => exact ⟨_, hreports⟩

namespace Agree

/-- A step that leaves the reports alone agrees with itself. -/
theorem of_warnings_eq {x : Step Graph α} (h : ∀ g, (Step.after (x g)).warnings = g.warnings) :
    Agree x x := by
  intro g
  exact .together [] (by rw [h, List.append_nil]) (by simp)

theorem bind {x x' : Step Graph α} {f f' : α → Step Graph β} (hx : Agree x x')
    (hf : ∀ a, Agree (f a) (f' a)) : Agree (x >>= f) (x' >>= f') := by
  intro g
  have hrun := hx g
  rw [Step.run_bind, Step.run_bind]
  generalize x g = r at hrun
  generalize x' g = r' at hrun
  cases hrun with
  | @together r reports hreports hplain =>
      cases r with
      | error e g₁ => exact .together reports hreports hplain
      | ok a g₁ =>
          have hreports : g₁.warnings = g.warnings ++ reports := hreports
          have hnext := hf a g₁
          dsimp only
          generalize f a g₁ = r at hnext
          generalize f' a g₁ = r' at hnext
          have hall : ∀ {more : List Warning}, (∀ w ∈ more, w.conflict? = none) →
              ∀ w ∈ reports ++ more, w.conflict? = none := by
            intro more hmore w hw
            exact (List.mem_append.mp hw).elim (hplain w) (hmore w)
          cases hnext with
          | @together _ reports' hreports' hplain' =>
              refine .together (reports ++ reports') ?_ (hall hplain')
              rw [hreports', hreports, List.append_assoc]
          | @parted e g₂ _ w reports' more hreports' hplain' hconflict =>
              refine .parted (reports ++ reports') more ?_ (hall hplain') hconflict
              rw [hreports', hreports, List.append_assoc, List.append_assoc]
  | @parted e g₁ r' w reports more hreports hplain hconflict =>
      -- the strict run has stopped; the lenient one only adds reports
      cases r' with
      | error e' g₂ => exact .parted reports more hreports hplain hconflict
      | ok a g₂ =>
          have hreports : g₂.warnings = g.warnings ++ (reports ++ w :: more) := hreports
          obtain ⟨more', hmore⟩ := (hf a g₂).grows
          refine .parted reports (more ++ more') ?_ hplain hconflict
          dsimp only
          rw [hmore, hreports, List.append_assoc, List.append_assoc, List.cons_append]

theorem pure (a : α) : Agree (Pure.pure a) (Pure.pure a) := of_warnings_eq fun _ => rfl

theorem get : Agree MonadState.get MonadState.get := of_warnings_eq fun _ => rfl

theorem modifying {f : Graph → Graph} (h : ∀ g, (f g).warnings = g.warnings) :
    Agree (modify f) (modify f) := of_warnings_eq h

theorem reject (e : ConversionError) : Agree (Step.reject e : Step Graph α) (Step.reject e) :=
  of_warnings_eq fun _ => rfl

theorem violate (v : Violation) : Agree (Step.violate v : Step Graph α) (Step.violate v) :=
  of_warnings_eq fun _ => rfl

theorem lift (x : Except ConversionError α) : Agree (liftM x) (liftM x) := by
  cases x with
  | ok a => exact .pure a
  | error e => exact .reject e

theorem liftViolation (x : Except Violation α) : Agree (liftM x) (liftM x) := by
  cases x with
  | ok a => exact .pure a
  | error v => exact .violate v

theorem ite {c : Prop} [Decidable c] {x x' y y' : Step Graph α} (hx : Agree x x')
    (hy : Agree y y') : Agree (if c then x else y) (if c then x' else y') := by
  by_cases hc : c
  · rw [if_pos hc, if_pos hc]
    exact hx
  · rw [if_neg hc, if_neg hc]
    exact hy

theorem require (c : Prop) [Decidable c] (v : Violation) :
    Agree (Step.require c v) (Step.require c v) := .ite (.pure ()) (.violate v)

theorem expect (c : Prop) [Decidable c] (e : ConversionError) :
    Agree (Step.expect c e) (Step.expect c e) := .ite (.pure ()) (.reject e)

theorem discard {x x' : Step Graph α} (hx : Agree x x') :
    Agree (Functor.discard x) (Functor.discard x') := by
  change Agree (x >>= fun _ => Pure.pure ()) (x' >>= fun _ => Pure.pure ())
  exact hx.bind fun _ => .pure ()

theorem forM (members : List α) {f f' : α → Step Graph PUnit}
    (h : ∀ a ∈ members, Agree (f a) (f' a)) : Agree (members.forM f) (members.forM f') := by
  induction members with
  | nil => exact .pure PUnit.unit
  | cons a rest ih =>
      refine (h a List.mem_cons_self).bind fun _ => ?_
      exact ih fun b hb => h b (List.mem_cons_of_mem a hb)

theorem mapM {members : List α} {f f' : α → Step Graph β}
    (h : ∀ a ∈ members, Agree (f a) (f' a)) : Agree (members.mapM f) (members.mapM f') := by
  induction members with
  | nil => exact .pure []
  | cons a rest ih =>
      rw [List.mapM_cons, List.mapM_cons]
      refine (h a List.mem_cons_self).bind fun b => ?_
      exact (ih fun c hc => h c (List.mem_cons_of_mem a hc)).bind fun bs => .pure (b :: bs)

/-! ## Editing -/

theorem tensor (id : TensorId) : Agree (Graph.tensor id) (Graph.tensor id) :=
  get.bind fun g => liftViolation (entryAt g.tensors id.index)

theorem op (id : OpId) : Agree (Graph.op id) (Graph.op id) :=
  get.bind fun g => liftViolation (entryAt g.ops id.index)

/-- Steps on an entry do not see the reports. -/
theorem onEntry {τ : Type} {entries : Graph → List τ} {store : Graph → List τ → Graph} (i : Nat)
    (step : Step τ α) (h : ∀ g ts, (store g ts).warnings = g.warnings) :
    Agree (Step.onEntry entries store i step) (Step.onEntry entries store i step) := by
  refine of_warnings_eq fun g => ?_
  unfold Step.onEntry
  cases (entries g)[i]? with
  | none => rfl
  | some t =>
      dsimp only
      cases step t with
      | ok a t' => exact h g _
      | error e t' => exact h g _

theorem onTensor (id : TensorId) (step : Step Tensor α) :
    Agree (Graph.onTensor id step) (Graph.onTensor id step) := onEntry _ step fun _ _ => rfl

theorem changeTensor (id : TensorId) (change : Tensor → Tensor) :
    Agree (Graph.changeTensor id change) (Graph.changeTensor id change) := onTensor id _

theorem updateTensor (id : TensorId) (change : Tensor → Except Violation Tensor) :
    Agree (Graph.updateTensor id change) (Graph.updateTensor id change) := onTensor id _

theorem onOp (id : OpId) (step : Step Operator α) :
    Agree (Graph.onOp id step) (Graph.onOp id step) := onEntry _ step fun _ _ => rfl

theorem changeOp (id : OpId) (change : Operator → Operator) :
    Agree (Graph.changeOp id change) (Graph.changeOp id change) := onOp id _

theorem updateOp (id : OpId) (change : Operator → Except Violation Operator) :
    Agree (Graph.updateOp id change) (Graph.updateOp id change) := onOp id _

theorem addTensor (name : String) (make : TensorId → Tensor) :
    Agree (Graph.addTensor name make) (Graph.addTensor name make) := of_warnings_eq fun _ => rfl

theorem addOp (o : Operator) : Agree (Graph.addOp o) (Graph.addOp o) := of_warnings_eq fun _ => rfl

theorem synthesize (kind : Kind) (name : String) :
    Agree (Graph.synthesize kind name) (Graph.synthesize kind name) := of_warnings_eq fun _ => rfl

/-! ## Registering -/

/-- Here strict and lenient runs part. -/
theorem conflict {e : ConversionError} {w : Warning} (h : w.conflict? = some e) :
    Agree (Graph.conflict (s.treating true) e w) (Graph.conflict (s.treating false) e w) := by
  intro g
  exact .parted [] [] rfl (by simp) h

theorem checkLayout (t : Tensor) (layout : Option Layout) :
    Agree (Graph.checkLayout (s.treating true) t layout)
      (Graph.checkLayout (s.treating false) t layout) := by
  cases layout with
  | none => exact .pure ()
  | some requested => exact .ite (.pure ()) (.conflict rfl)

theorem checkConstant (t : Tensor) (constant : Bool) :
    Agree (Graph.checkConstant (s.treating true) t constant)
      (Graph.checkConstant (s.treating false) t constant) := .ite (.conflict rfl) (.pure ())

theorem request (index : Int64) (layout : Option Layout) (constant : Bool) :
    Agree (Graph.request (s.treating true) index layout constant)
      (Graph.request (s.treating false) index layout constant) := by
  unfold Graph.request
  refine (lift (s.subgraph.tensor index)).bind fun decl => get.bind fun g => ?_
  cases g.lookup? decl.name with
  | none => exact .addTensor _ _
  | some id =>
      exact (tensor id).bind fun t => (checkLayout t layout).bind fun _ =>
        (checkConstant t constant).bind fun _ => .pure id

theorem requestParsed (index : Int64) (layout : Option Layout) (constant : Bool) :
    Agree (Graph.requestParsed (s.treating true) index layout constant)
      (Graph.requestParsed (s.treating false) index layout constant) :=
  (request index layout constant).bind fun id =>
    (onTensor id (Tensor.parse s)).bind fun _ => .pure id

theorem registered (name : String) {make : Step Graph (TensorId → Tensor)}
    (h : Agree make make) :
    Agree (Graph.registered name make) (Graph.registered name make) := by
  refine get.bind fun g => ?_
  cases g.lookup? name with
  | none => exact h.bind fun make => .addTensor name make
  | some id => exact .pure id

theorem derive (existing : TensorId) (name : String) (constant : Bool) :
    Agree (Graph.derive existing name constant) (Graph.derive existing name constant) :=
  registered name ((tensor existing).bind fun _ => .pure _)

theorem vector (owner : String) (values : List Int) :
    Agree (Graph.vector owner values) (Graph.vector owner values) := registered _ (.pure _)

/-! ## Taking in the source -/

theorem declaration (id : OpId) :
    Agree (Graph.declaration (s.treating true) id) (Graph.declaration (s.treating false) id) := by
  refine (op id).bind fun operator => ?_
  cases operator.index with
  | none => exact .violate _
  | some i =>
      refine (liftViolation (entryAt s.subgraph.operators i)).bind fun decl => ?_
      exact .pure (i, decl)

theorem takeInput (id : OpId) (slot : Nat) (layout : Option Layout) (constant : Bool) :
    Agree (Graph.takeInput (s.treating true) id slot layout constant)
      (Graph.takeInput (s.treating false) id slot layout constant) :=
  (declaration id).bind fun source => (liftViolation (entryAt source.2.inputs slot)).bind
    fun index => (requestParsed index layout constant).bind fun t => (changeTensor t _).bind
      fun _ => (changeOp id _).bind fun _ => .pure t

theorem takeOutput (id : OpId) (slot : Nat) (layout : Option Layout) :
    Agree (Graph.takeOutput (s.treating true) id slot layout)
      (Graph.takeOutput (s.treating false) id slot layout) :=
  (declaration id).bind fun source => (liftViolation (entryAt source.2.outputs slot)).bind
    fun index => (requestParsed index layout false).bind fun t => (changeTensor t _).bind
      fun _ => (changeOp id _).bind fun _ => .pure t

theorem finish (id : OpId) (output : TensorId) :
    Agree (Graph.finish id output) (Graph.finish id output) :=
  (tensor output).bind fun _ => updateOp id _

theorem checkActivationRank (id : TensorId) :
    Agree (Graph.checkActivationRank id) (Graph.checkActivationRank id) :=
  (tensor id).bind fun _ => expect _ _

theorem kernelSize (weights : TensorId) :
    Agree (Graph.kernelSize weights) (Graph.kernelSize weights) := by
  refine (tensor weights).bind fun t => ?_
  split
  · exact .pure _
  · exact .reject _

theorem takeBias (id : OpId) (decl : Source.OperatorDecl) :
    Agree (Graph.takeBias (s.treating true) id decl) (Graph.takeBias (s.treating false) id decl) :=
  .ite (takeInput id 2 none true).discard (.pure ())

theorem parseConv (id : OpId) :
    Agree (Graph.parseConv (s.treating true) id) (Graph.parseConv (s.treating false) id) := by
  refine (declaration id).bind fun source => ?_
  refine (require (s.model.opcode source.2 = .conv2d) _).bind fun _ => ?_
  refine (lift _).bind fun _ => (lift _).bind fun _ => (lift _).bind fun options => ?_
  refine (takeInput id 0 _ false).bind fun x => (checkActivationRank x).bind fun _ => ?_
  refine (takeInput id 1 _ true).bind fun w => (kernelSize w).bind fun kernel => ?_
  refine (takeBias id source.2).bind fun _ => ?_
  refine (takeOutput id 0 _).bind fun y => (checkActivationRank y).bind fun _ => ?_
  exact (changeOp id _).bind fun _ => finish id y

/-- The report on a shape operand is no conflict. -/
theorem warnShapeOperandRank (text : String) (rank : Nat) :
    Agree (warn (.shapeOperandRank text rank)) (warn (.shapeOperandRank text rank)) := by
  intro g
  exact .together [.shapeOperandRank text rank] rfl (by simp [Warning.conflict?])

theorem normalizeShape (id : TensorId) :
    Agree (Graph.normalizeShape id) (Graph.normalizeShape id) := by
  refine (updateTensor id _).bind fun _ => (tensor id).bind fun t => .ite ?_ (.pure ())
  exact (warnShapeOperandRank _ _).bind fun _ => .ite (changeTensor id _) (.pure ())

theorem takeShape (id : OpId) (index : Nat) (decl : Source.OperatorDecl) :
    Agree (Graph.takeShape (s.treating true) id index decl)
      (Graph.takeShape (s.treating false) id index decl) := by
  refine .ite ((takeInput id 1 none false).bind fun t => normalizeShape t) ?_
  refine (lift _).bind fun values => (liftViolation (entryAt decl.outputs 0)).bind fun index => ?_
  refine (lift (s.subgraph.tensor index)).bind fun output => (vector _ _).bind fun shape => ?_
  exact (changeTensor shape _).bind fun _ => changeOp id _

theorem parseReshape (id : OpId) :
    Agree (Graph.parseReshape (s.treating true) id) (Graph.parseReshape (s.treating false) id) := by
  refine (declaration id).bind fun source => ?_
  refine (require (s.model.opcode source.2 = .reshape) _).bind fun _ => ?_
  refine (lift _).bind fun _ => (lift _).bind fun _ => ?_
  refine (takeInput id 0 none false).discard.bind fun _ => ?_
  refine (takeShape id source.1 source.2).bind fun _ => ?_
  exact (takeOutput id 0 none).bind fun y => finish id y

theorem parseOp (id : OpId) :
    Agree (Graph.parseOp (s.treating true) id) (Graph.parseOp (s.treating false) id) := by
  refine (op id).bind fun operator => .ite (.pure ()) ?_
  cases operator.kind with
  | conv c => exact parseConv id
  | reshape lifts => exact parseReshape id
  | transpose perm => exact .violate _

theorem applyExplicitLayout (name : String) (e : ExplicitLayout) :
    Agree (Graph.applyExplicitLayout (s.treating true) name e)
      (Graph.applyExplicitLayout (s.treating false) name e) := by
  unfold Graph.applyExplicitLayout
  dsimp only [Scope.treating]
  cases s.subgraph.tensorIndex? name with
  | none => exact .reject _
  | some index =>
      refine (lift _).bind fun l => (requestParsed _ (some l) false).bind fun id => ?_
      exact (tensor id).bind fun t => expect _ _

theorem takeOp (index : Nat) (decl : Source.OperatorDecl) :
    Agree (Graph.takeOp (s.treating true) index decl)
      (Graph.takeOp (s.treating false) index decl) :=
  (lift (Kind.ofOpcode (s.model.opcode decl))).bind fun _ => (addOp _).bind fun id =>
    (parseOp id).bind fun _ => modifying fun _ => rfl

theorem takeBoundary (indices : List UInt64) :
    Agree (Graph.takeBoundary (s.treating true) indices)
      (Graph.takeBoundary (s.treating false) indices) :=
  mapM fun index _ => requestParsed index.toInt64 none false

theorem parse : Agree (Graph.parse (s.treating true)) (Graph.parse (s.treating false)) := by
  refine (forM s.subgraph.operators.zipIdx fun entry _ =>
    takeOp entry.2 entry.1).bind fun _ => ?_
  refine (takeBoundary s.subgraph.inputs).bind fun ins => ?_
  refine (modifying (f := fun g => { g with inputs := ins }) fun _ => rfl).bind fun _ => ?_
  exact (takeBoundary s.subgraph.outputs).bind fun outs => modifying fun _ => rfl

/-! ## Adapting -/

theorem complete (id : TensorId) (shape : List Nat) (l : Layout) :
    Agree (Graph.complete id shape l) (Graph.complete id shape l) :=
  (changeTensor id _).bind fun _ => (updateTensor id _).bind fun _ => updateTensor id _

theorem readInstead (reader : OpId) (operand moved : TensorId) :
    Agree (Graph.readInstead reader operand moved) (Graph.readInstead reader operand moved) :=
  (changeTensor operand _).bind fun _ => (updateOp reader _).bind fun _ => changeTensor moved _

theorem transposeBefore (reader : OpId) (operand moved : TensorId) (perm : List Nat)
    (name : String) :
    Agree (Graph.transposeBefore reader operand moved perm name)
      (Graph.transposeBefore reader operand moved perm name) := by
  refine (synthesize _ name).bind fun turn => (changeOp turn _).bind fun _ => ?_
  refine (updateTensor operand _).bind fun _ => (updateOp reader _).bind fun _ => ?_
  refine (changeOp turn _).bind fun _ => (changeTensor moved _).bind fun _ => ?_
  refine (changeTensor moved _).bind fun _ => (updateOp turn _).bind fun _ => ?_
  exact (changeOp reader _).bind fun _ => .pure turn

theorem transposeAfter (writer : OpId) (operand moved : TensorId) (perm : List Nat)
    (name : String) :
    Agree (Graph.transposeAfter writer operand moved perm name)
      (Graph.transposeAfter writer operand moved perm name) := by
  refine (synthesize _ name).bind fun turn => (changeOp turn _).bind fun _ => ?_
  refine (updateTensor operand _).bind fun _ => (updateOp writer _).bind fun _ => ?_
  refine (changeOp turn _).bind fun _ => (changeTensor moved _).bind fun _ => ?_
  refine (changeTensor moved _).bind fun _ => (updateOp turn _).bind fun _ => ?_
  exact (changeOp writer _).bind fun _ => .pure turn

theorem preserveInput (id : OpId) (slot : Nat) :
    Agree (Graph.preserveInput id slot) (Graph.preserveInput id slot) := by
  refine (op id).bind fun operator => (require _ _).bind fun _ => ?_
  refine (liftViolation _).bind fun operand => (tensor operand).bind fun t => ?_
  refine (lift _).bind fun l => (liftViolation _).bind fun shape => get.bind fun g => ?_
  cases producerNamed? g (synthesizedName "Transposed" t.name) with
  | some found =>
      exact (readInstead id operand found.1).bind fun _ => (op found.2).bind fun _ => .pure found.2
  | none =>
      refine (derive operand _ false).bind fun moved => (complete moved shape _).bind fun _ => ?_
      exact transposeBefore id operand moved _ _

theorem preserveOutput (id : OpId) (slot : Nat) :
    Agree (Graph.preserveOutput id slot) (Graph.preserveOutput id slot) := by
  refine (op id).bind fun operator => (require _ _).bind fun _ => ?_
  refine (liftViolation _).bind fun operand => (tensor operand).bind fun t => ?_
  refine (lift _).bind fun l => (liftViolation _).bind fun shape => ?_
  refine (derive operand _ false).bind fun moved => (complete moved shape _).bind fun _ => ?_
  exact transposeAfter id operand moved _ _

theorem adaptLift (operator : Operator) (input output : TensorId) :
    Agree (Graph.adaptLift operator input output) (Graph.adaptLift operator input output) := by
  refine (tensor input).bind fun i => (tensor output).bind fun o => (require _ _).bind fun _ => ?_
  refine (lift _).bind fun l => (liftViolation _).bind fun shape => (tensor shape).bind fun t => ?_
  cases t.data with
  | none => exact .reject _
  | some data => exact (liftViolation _).bind fun moved => changeTensor shape _

theorem adapt (id : OpId) (operator : Operator) :
    Agree (Graph.adapt id operator) (Graph.adapt id operator) := by
  unfold Graph.adapt
  cases operator.kind with
  | conv c => exact .pure ()
  | transpose perm => exact .pure ()
  | reshape lifts =>
      refine (liftViolation _).bind fun input => (liftViolation _).bind fun output => ?_
      refine .ite (adaptLift operator input output) ?_
      refine ((tensor input).bind fun t => ?_).bind fun _ => (tensor output).bind fun t => ?_
      · exact .ite (preserveInput id 0).discard (.pure ())
      · exact .ite (preserveOutput id 0).discard (.pure ())

theorem transformOp (id : OpId) : Agree (Graph.transformOp id) (Graph.transformOp id) := by
  refine (op id).bind fun operator => (require _ _).bind fun _ => .ite (.pure ()) ?_
  exact (adapt id operator).bind fun _ => updateOp id _

theorem transform : Agree Graph.transform Graph.transform := by
  refine get.bind fun g => (forM (pending g) fun id _ => updateTensor id _).bind fun _ => ?_
  exact get.bind fun g => forM (List.range g.ops.length) fun i _ => transformOp ⟨i⟩

/-! ## Emitting -/

theorem convertOp (id : OpId) : Agree (Graph.convertOp id) (Graph.convertOp id) := by
  refine (op id).bind fun operator => (require _ _).bind fun _ => ?_
  refine (mapM fun t _ => tensor t).bind fun ins => (mapM fun t _ => tensor t).bind fun outs => ?_
  exact (lift _).bind fun _ => (updateOp id _).bind fun _ => .pure _

theorem convertTensor (id : TensorId) : Agree (Graph.convertTensor id) (Graph.convertTensor id) :=
  (onTensor id _).bind fun node => get.bind fun g => .pure (role g id node, node)

theorem convert (name : String) : Agree (Graph.convert name) (Graph.convert name) := by
  refine get.bind fun g => (liftViolation _).bind fun order => ?_
  refine (mapM fun id _ => convertOp id).bind fun nodes => ?_
  refine (mapM fun id _ => op id).bind fun os => ?_
  refine get.bind fun g => (mapM fun id _ => convertTensor id).bind fun tensors => ?_
  refine get.bind fun g => (mapM fun id _ => onTensor id _).bind fun outs => ?_
  exact (lift _).bind fun _ => .pure _

theorem run (layouts : SortedMap ExplicitLayout) (name : String) :
    Agree (Conversion.run (s.treating true) layouts name)
      (Conversion.run (s.treating false) layouts name) :=
  (forM layouts.entries fun entry _ => applyExplicitLayout entry.1 entry.2).bind fun _ =>
    parse.bind fun _ => transform.bind fun _ => convert name

end Agree

end Graph

end Relayout
