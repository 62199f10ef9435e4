/-
# Element types around reshapes

A reshape keeps the element type of its operand, and no check of a written graph
compares the two.  A tensor that some reshape reads as a shape is cast in place,
for whoever else reads or writes it; nothing converts it back.  So a source whose
reshapes keep the declared types is emitted with operand and result of one type
just where both of them are read as shapes, or neither, or where nothing had to be
cast.
-/
import Relayout.Proofs.Evaluation.Calls
import Relayout.Proofs.Graph.Written
import Relayout.Proofs.Identity

namespace Relayout

namespace Target

/-- The element type of the first tensor of a name. -/
def Graph.type? (graph : Graph) (name : String) : Option ElementType :=
  (graph.tensor? name).map TensorNode.elementType

/-- Some reshape reads one element type and writes another one. -/
def Graph.Retypes (graph : Graph) (read written : ElementType) : Prop :=
  ∃ node ∈ graph.nodesOf "Reshape", node.inputs[0]?.bind graph.type? = some read ∧
    node.outputs[0]?.bind graph.type? = some written

instance (graph : Graph) (read written : ElementType) : Decidable (graph.Retypes read written) :=
  inferInstanceAs (Decidable (∃ node ∈ _, _))

end Target

namespace Scope

variable {s : Scope}

/-- The declared element type of the operand in a slot. -/
def typeIn? (s : Scope) (indices : List Int64) (slot : Nat) : Option Source.ElementType :=
  (Source.operandAt? indices slot).bind fun p =>
    s.subgraph.tensors[p]?.map Source.TensorDecl.elementType

/-- Every reshape is declared with operand and result of one element type. -/
def KeepsTypes (s : Scope) : Prop :=
  ∀ decl ∈ s.reshapes, s.typeIn? decl.inputs 0 = s.typeIn? decl.outputs 0

/-- The same of all tensors that have the names of the two. -/
def KeepsNamedTypes (s : Scope) : Prop :=
  ∀ decl ∈ s.reshapes, ∃ type, ∀ d ∈ s.subgraph.tensors,
    s.nameIn? decl.inputs 0 = some d.name ∨ s.nameIn? decl.outputs 0 = some d.name →
      d.elementType = type

theorem typeIn?_of_nameIn? (hs : s.Distinct) {indices : List Int64} {slot : Nat}
    {d : Source.TensorDecl} (hd : d ∈ s.subgraph.tensors)
    (hname : s.nameIn? indices slot = some d.name) :
    s.typeIn? indices slot = some d.elementType := by
  obtain ⟨p, hp, hpd⟩ := Option.bind_eq_some_iff.mp (nameIn?_eq s indices slot ▸ hname)
  obtain ⟨q, hq⟩ := List.getElem?_of_mem hd
  obtain rfl : p = q := hs.position_eq hpd (by rw [nameOf?, hq, Option.map_some])
  rw [typeIn?, hp, Option.bind_some, hq, Option.map_some]

theorem KeepsTypes.named (h : s.KeepsTypes) (hs : s.Distinct) : s.KeepsNamedTypes := by
  intro decl hdecl
  have hsame := h decl hdecl
  refine ⟨(s.typeIn? decl.inputs 0).getD .float32, fun d hd hname => ?_⟩
  rcases hname with hname | hname
  · rw [typeIn?_of_nameIn? hs hd hname, Option.getD_some]
  · rw [hsame, typeIn?_of_nameIn? hs hd hname, Option.getD_some]

/-- The element type of a tensor that is declared with another one, which is lost
where the tensor is read as a shape. -/
def castType (s : Scope) (name : String) (type : ElementType) : ElementType :=
  if name ∈ s.shapes then .int64 else type

/-- Two tensors declared with one type are cast alike, unless the type is that of
shapes. -/
theorem castType_eq_iff {x y : String} {type : ElementType} :
    s.castType x type = s.castType y type ↔ ((x ∈ s.shapes ↔ y ∈ s.shapes) ∨ type = .int64) := by
  unfold castType
  split <;> split <;> simp_all [eq_comm]

/-- The node of a reshape, and the tensors that it reads and writes.  Both were
declared with one type; they have this type still, or that of shapes. -/
structure SeesTypes (s : Scope) (graph : Target.Graph) (node : Target.Node) (x y : String)
    (type : ElementType) (input output : Target.TensorNode) : Prop where
  declared : ∀ d ∈ s.subgraph.tensors, d.name = x ∨ d.name = y →
    d.elementType.converted? = some type
  inputs : node.inputs[0]? = some input.name
  outputs : node.outputs = [output.name]
  read : graph.tensor? input.name = some input
  written : graph.tensor? output.name = some output
  inputType : input.elementType = s.castType x type
  outputType : output.elementType = s.castType y type
  agree : input.elementType = output.elementType ↔
    ((x ∈ s.shapes ↔ y ∈ s.shapes) ∨ type = .int64)

end Scope

namespace Graph

variable {s : Scope} {layouts : SortedMap ExplicitLayout} {g : Graph} {t : Tensor} {i : Nat}
  {title : String} {decl : Source.OperatorDecl}

/-- A tensor of the source has the type of some declaration of its name, or the
type of shapes. -/
theorem Intake.exists_elementType (h : Intake s layouts g) (ht : t ∈ g.tensors)
    (hname : ¬Reserved t.name) :
    ∃ d ∈ s.subgraph.tensors, d.name = t.name ∧ ∃ type, d.elementType.converted? = some type ∧
      t.elementType = some (s.castType t.name type) := by
  obtain ⟨b, hb, hn, heq⟩ := h.entry ht
  cases hb with
  | @source k d type id layout hd hr =>
      refine ⟨d, List.mem_of_getElem? hd, hn, type, hr.converted, ?_⟩
      rw [← t.bare_elementType, heq, Scope.castType]
      split <;> rfl
  | vector hdecl hoptions howner => exact absurd (hn ▸ reserved_synthesizedName _ _) hname

/-- The node of a reshape has the types that were declared, up to casts. -/
theorem Passes.seesTypes (h : Passes s layouts g title) (hkeeps : s.KeepsNamedTypes)
    {a b : String} {shape : Option String} (hre : Reshaping s layouts g decl i a shape b) :
    ∃ type input output, s.SeesTypes (g.loweredGraph title)
      (reshapeNode (s.tag layouts) a shape b) a b type input output := by
  obtain ⟨hopcode, hx, -, -⟩ := Scope.call?_eq_reshape.mp hre.call
  obtain ⟨sourceType, htypes⟩ := hkeeps decl
    (List.mem_filter.mpr ⟨List.mem_of_getElem? hre.declared, decide_eq_true hopcode⟩)
  rw [hx, Scope.nameIn?_of_call? hre.call] at htypes
  obtain ⟨x, y, u, v, hends⟩ := h.exists_atEnds hre
  obtain ⟨p, -, hpx⟩ := Scope.exists_operand hx
  obtain ⟨q, -, hqy⟩ := Scope.exists_output hre.call
  obtain rfl := hends.operandName
  obtain rfl := hends.resultName
  obtain ⟨d, hd, hdx, type, htype, hxtype⟩ :=
    h.intake.exists_elementType hends.operand (h.unreserved.not_reserved hpx)
  obtain ⟨e, he, hey, type', htype', hytype⟩ :=
    h.intake.exists_elementType hends.result (h.unreserved.not_reserved hqy)
  -- both declarations are among those that have the type of this reshape
  have hdtype := htypes d hd (Or.inl (congrArg some hdx.symm))
  have hetype := htypes e he (Or.inr (congrArg some hey.symm))
  rw [hdtype] at htype
  obtain rfl : type = type' := by
    rw [hetype, htype] at htype'
    exact Option.some.inj htype'
  have hin : u.node.elementType = s.castType x.name type := by
    change u.elementType.getD .float32 = _
    rw [hends.readOrder.elementType, hxtype, Option.getD_some]
  have hout : v.node.elementType = s.castType y.name type := by
    change v.elementType.getD .float32 = _
    rw [hends.writtenOrder.elementType, hytype, Option.getD_some]
  refine ⟨type, u.node, v.node, ?_, congrArg some hends.readAs.symm,
    congrArg (fun name => [name]) hends.writtenAs.symm, hends.read, hends.written, hin, hout, ?_⟩
  · intro f hf hname
    rw [htypes f hf (hname.imp (congrArg some ·.symm) (congrArg some ·.symm)), htype]
  · rw [hin, hout, Scope.castType_eq_iff]

end Graph

namespace Conversion

open Relayout.Graph

/-- If the reshapes of the source keep the declared types, then those of the
converted graph do so up to casts.  Every reshape has one node, in order; it reads
and writes the type declared for both, or 64-bit integers where some reshape reads
the tensor as a shape.  The two are the same just if both are read as shapes, or
neither, or if 64-bit integers are declared. -/
theorem convertModel_elementTypes {m : Source.Model} {o : Options} {model : Target.Model}
    {sub : Source.Subgraph} (h : (convertModel m o).outcome = .ok model)
    (hsub : m.subgraphs = [sub]) (hnames : (scopeOf m sub o).Unreserved)
    (hkeeps : (scopeOf m sub o).KeepsNamedTypes) :
    List.Forall₂ (fun decl node => ∃ x shape y type input output,
        (scopeOf m sub o).call? decl = some (.reshape x shape y) ∧
          (scopeOf m sub o).SeesTypes model.graph node x y type input output)
      (scopeOf m sub o).reshapes (model.graph.nodesOf "Reshape") := by
  obtain ⟨g, title, hpasses, hgraph⟩ := exists_passes h hsub hnames
  rw [hgraph, Target.Graph.nodesOf, hpasses.nodes_eq]
  refine hpasses.intake.forall₂_reshapes.imp ?_
  rintro decl node ⟨i, x, shape, y, hre, rfl⟩
  obtain ⟨type, input, output, hsees⟩ := hpasses.seesTypes hkeeps hre
  exact ⟨x, shape, y, type, input, output, hre.call, hsees⟩

/-- The tensor `x` is the shape of one reshape, and what the other one reads. -/
def castSubgraph : Source.Subgraph where
  name := none
  tensors := [⟨"a", [4], .float32, 0, none⟩, ⟨"x", [1], .int32, 0, none⟩,
    ⟨"b", [4], .float32, 0, none⟩, ⟨"y", [1, 1], .int32, 0, none⟩]
  operators := [⟨0, [0, 1], [2], .none⟩, ⟨0, [1], [3], .reshape [1, 1]⟩]
  inputs := [0, 1]
  outputs := [2, 3]

def castModel : Source.Model := reshapeModel [[]] castSubgraph

theorem castModel_keepsTypes : (scopeOf castModel castSubgraph plainOptions).KeepsTypes := by
  unfold Scope.KeepsTypes
  decide

theorem convertModel_elementTypes_cast :
    ∃ model, (convertModel castModel plainOptions).outcome = .ok model ∧
      (scopeOf castModel castSubgraph plainOptions).reshapes.length = 2 ∧
      List.Forall₂ (fun decl node => ∃ x shape y type input output,
          (scopeOf castModel castSubgraph plainOptions).call? decl =
              some (.reshape x shape y) ∧
            (scopeOf castModel castSubgraph plainOptions).SeesTypes model.graph node x y type
              input output)
        (scopeOf castModel castSubgraph plainOptions).reshapes (model.graph.nodesOf "Reshape") := by
  obtain ⟨model, hmodel, -⟩ :=
    exists_of_outcome castModel plainOptions (fun _ => true) (by decide +kernel)
  have hdistinct : (scopeOf castModel castSubgraph plainOptions).Distinct := by
    unfold Scope.Distinct
    decide
  refine ⟨model, hmodel, by decide, ?_⟩
  refine convertModel_elementTypes hmodel rfl ?_ (castModel_keepsTypes.named hdistinct)
  unfold Scope.Unreserved
  decide

/-! ## Other types -/

/-- Two declarations of one name, of which the first one is read. -/
def twoTypesSubgraph : Source.Subgraph where
  name := none
  tensors := [⟨"x", [1], .float32, 0, none⟩, ⟨"y", [1], .float32, 0, none⟩,
    ⟨"x", [1], .int32, 0, none⟩, ⟨"z", [1, 1], .int32, 0, none⟩]
  operators := [⟨0, [0], [1], .reshape [1]⟩, ⟨0, [2], [3], .reshape [1, 1]⟩]
  inputs := [0]
  outputs := [1, 3]

/-- An output has the name of the other form of what the reshape reads. -/
def turnedTypeSubgraph : Source.Subgraph where
  name := none
  tensors := [⟨"x", [1, 2], .float32, 0, none⟩, ⟨"y", [2], .float32, 0, none⟩,
    ⟨"TFLITE2ONNX_Transposed_x", [1, 2], .int32, 0, none⟩]
  operators := [⟨0, [0], [1], .reshape [2]⟩]
  inputs := [0]
  outputs := [1, 2]

/-- Sources whose reshapes keep the declared types, and converted graphs that do
not: a shape is cast under another reshape; a name stands for a tensor of another
type, declared before it; and so does a name that is made up. -/
theorem convertModel_retypes :
    ((scopeOf castModel castSubgraph plainOptions).KeepsTypes ∧
      ∃ model, (convertModel castModel plainOptions).outcome = .ok model ∧
        model.graph.Retypes .int64 .int32) ∧
    ((scopeOf (reshapeModel [[]] twoTypesSubgraph) twoTypesSubgraph plainOptions).KeepsTypes ∧
      ∃ model, (convertModel (reshapeModel [[]] twoTypesSubgraph) plainOptions).outcome =
          .ok model ∧
        model.graph.Retypes .float32 .int32) ∧
    ((scopeOf (reshapeModel [[]] turnedTypeSubgraph) turnedTypeSubgraph
        turnedNameOptions).KeepsTypes ∧
      ∃ model, (convertModel (reshapeModel [[]] turnedTypeSubgraph) turnedNameOptions).outcome =
          .ok model ∧
        model.graph.Retypes .int32 .float32) := by
  refine ⟨⟨castModel_keepsTypes, ?_⟩, ⟨?_, ?_⟩, ?_, ?_⟩
  · obtain ⟨model, hmodel, hseen⟩ := exists_of_outcome castModel plainOptions
      (fun model => decide (model.graph.Retypes .int64 .int32)) (by decide +kernel)
    exact ⟨model, hmodel, of_decide_eq_true hseen⟩
  · unfold Scope.KeepsTypes
    decide
  · obtain ⟨model, hmodel, hseen⟩ := exists_of_outcome (reshapeModel [[]] twoTypesSubgraph)
      plainOptions (fun model => decide (model.graph.Retypes .float32 .int32))
      (by decide +kernel)
    exact ⟨model, hmodel, of_decide_eq_true hseen⟩
  · unfold Scope.KeepsTypes
    decide
  · obtain ⟨model, hmodel, hseen⟩ := exists_of_outcome (reshapeModel [[]] turnedTypeSubgraph)
      turnedNameOptions (fun model => decide (model.graph.Retypes .int32 .float32))
      (by decide +kernel)
    exact ⟨model, hmodel, of_decide_eq_true hseen⟩

end Conversion

end Relayout
