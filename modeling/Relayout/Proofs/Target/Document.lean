/-
# The JSON form is faithful for finite floats

A model is read back from its document exactly when all its floats are finite:
a float that is no number is written as null, and no reader of floats takes
null.  For the finite ones it is asked that the decimal which is written is
read as the same bits (`WrittenFloat.ReadsBack`); this is a property of single
floats, since reading rounds more than once and is not always right.  All else
comes back as it is, whatever the texts and the integers are.
-/
import Relayout.Proofs.Json.Field
import Relayout.Proofs.Target.Binary
import Relayout.Target.Document

namespace Relayout.Target

open Json

/-! ## The floats of a document -/

/-- A float where a document has a decimal or null: its format, the style in
which it is written, and its bits. -/
structure WrittenFloat where
  format : Format
  style : FloatStyle
  bits : Nat

namespace WrittenFloat

def single (bits : BitVec 32) : WrittenFloat := ⟨.single, singleStyle, bits.toNat⟩

def double (bits : BitVec 64) : WrittenFloat := ⟨.double, doubleStyle, bits.toNat⟩

def Finite (x : WrittenFloat) : Prop := x.format.isFinite x.bits = true

/-- The decimal that is written for a float is read as the same bits. -/
def ReadsBack (x : WrittenFloat) : Prop :=
  (x.style.numeral x.format x.bits).toFloat? x.format = some x.bits

instance (x : WrittenFloat) : Decidable x.Finite :=
  inferInstanceAs (Decidable (x.format.isFinite x.bits = true))

instance (x : WrittenFloat) : Decidable x.ReadsBack :=
  inferInstanceAs (Decidable ((x.style.numeral x.format x.bits).toFloat? x.format = some x.bits))

end WrittenFloat

-- Reading rounds the digits and then every step of their scaling.
example : (WrittenFloat.double 0x135ca63f9118bb16).Finite ∧
    ¬(WrittenFloat.double 0x135ca63f9118bb16).ReadsBack := by decide +kernel

/-- The float that an element is, unless it is written as an integer or a truth
value. -/
def elementFloat? : (t : ElementType) → BitVec t.bitWidth → Option WrittenFloat
  | .float32, b => some (.single b)
  | .float64, b => some (.double b)
  | _, _ => none

def bufferFloats (b : Buffer) : List WrittenFloat :=
  b.elements.flatMap fun x => (elementFloat? b.elementType x).toList

def TensorNode.floats (t : TensorNode) : List WrittenFloat := t.data.toList.flatMap bufferFloats

def Attribute.floats : Attribute → List WrittenFloat
  | .float bits => [.single bits]
  | _ => []

def Node.floats (n : Node) : List WrittenFloat :=
  n.attributes.entries.flatMap fun e => e.2.floats

/-- The floats of all attributes and of the data of all tensors. -/
def Graph.floats (g : Graph) : List WrittenFloat :=
  g.nodes.flatMap Node.floats ++ g.tensors.flatMap TensorNode.floats

def Model.floats (m : Model) : List WrittenFloat := m.graph.floats

/-! ## Legible and blotted values -/

/-- All floats are finite and read back. -/
def Legible (floats : List WrittenFloat) : Prop := ∀ x ∈ floats, x.Finite ∧ x.ReadsBack

/-- Some float is no number. -/
def Blotted (floats : List WrittenFloat) : Prop := ∃ x ∈ floats, ¬x.Finite

section Floats

variable {α : Type} {f : α → List WrittenFloat} {as : List α} {xs ys : List WrittenFloat}

theorem legible_flatMap : Legible (as.flatMap f) ↔ ∀ a ∈ as, Legible (f a) := by
  simp only [Legible, List.mem_flatMap]
  exact ⟨fun h a ha x hx => h x ⟨a, ha, hx⟩, fun h x ⟨a, ha, hx⟩ => h a ha x hx⟩

theorem blotted_flatMap : Blotted (as.flatMap f) ↔ ∃ a ∈ as, Blotted (f a) := by
  simp only [Blotted, List.mem_flatMap]
  exact ⟨fun ⟨x, ⟨a, ha, hx⟩, h⟩ => ⟨a, ha, x, hx, h⟩,
    fun ⟨a, ha, x, hx, h⟩ => ⟨x, ⟨a, ha, hx⟩, h⟩⟩

theorem legible_append : Legible (xs ++ ys) ↔ Legible xs ∧ Legible ys := List.forall_mem_append

theorem blotted_append : Blotted (xs ++ ys) ↔ Blotted xs ∨ Blotted ys := by
  simp only [Blotted, List.mem_append, or_and_right, exists_or]

/-- A law that is told in terms of floats. -/
abbrev FloatMirrors (write : α → Json) (read : Json → Option α) (floats : α → List WrittenFloat) :
    Prop :=
  Mirrors write read (fun a => Legible (floats a)) fun a => Blotted (floats a)

variable {write : α → Json} {read : Json → Option α}

/-- What holds no float is read back. -/
theorem FloatMirrors.floatless (hplain : ∀ a, (write a).Plain)
    (h : ∀ a, read (write a) = some a) : FloatMirrors write read fun _ => [] :=
  (Mirrors.of_forall hplain h).congr (fun _ _ => trivial)
    fun _ ⟨_, hx, _⟩ => List.not_mem_nil hx

theorem FloatMirrors.list (h : FloatMirrors write read f) :
    FloatMirrors (fun as => .array (as.map write)) (toListOf? read) fun as => as.flatMap f :=
  (Mirrors.list h).congr (fun _ => legible_flatMap.mp) fun _ => blotted_flatMap.mp

theorem FloatMirrors.option (h : FloatMirrors write read f) (hnull : ∀ a, write a ≠ .null) :
    FloatMirrors (fun o => (o.map write).getD .null) (toOptionOf? read)
      fun o => o.toList.flatMap f :=
  (Mirrors.option h hnull).congr
    (fun _ hl a ha => legible_flatMap.mp hl a (Option.mem_toList.mpr ha))
    fun _ hb => by
      obtain ⟨a, ha, hb⟩ := blotted_flatMap.mp hb
      exact ⟨a, Option.mem_toList.mp ha, hb⟩

theorem FloatMirrors.entries (h : FloatMirrors write read f) :
    FloatMirrors (fun entries => .ofFields (entries.map fun (key, a) => (key, write a)))
      (toEntriesOf? read) fun entries => entries.flatMap fun e => f e.2 :=
  (Mirrors.entries h).congr (fun _ => legible_flatMap.mp) fun _ => blotted_flatMap.mp

end Floats

/-! ## Elements and buffers -/

theorem plain_floatToJson (style : FloatStyle) (f : Format) (bits : Nat) :
    (floatToJson style f bits).Plain := by
  unfold floatToJson
  split
  · exact .number _
  · exact .null

section Elements

variable {width : Nat} {style : FloatStyle} {f : Format}

theorem float_mirrors :
    FloatMirrors (fun b : BitVec width => floatToJson style f b.toNat)
      (fun j => (j.toFloat? f).map (BitVec.ofNat width)) fun b => [⟨f, style, b.toNat⟩] where
  plain b := plain_floatToJson style f b.toNat
  read_back {b} h := by
    obtain ⟨hfinite, hback⟩ := h _ List.mem_cons_self
    have hwritten : f.isFinite b.toNat = true := hfinite
    have hread : (Json.number (style.numeral f b.toNat)).toFloat? f = some b.toNat := hback
    rw [floatToJson, if_pos hwritten, hread, Option.map_some, BitVec.ofNat_toNat,
      BitVec.setWidth_eq]
  read_none := by
    rintro b ⟨x, hx, hnot⟩
    cases List.mem_singleton.mp hx
    have hwritten : ¬f.isFinite b.toNat = true := hnot
    rw [floatToJson, if_neg hwritten]
    rfl

theorem unsigned_mirrors :
    FloatMirrors (fun b : BitVec width => .ofInt b.toNat)
      (fun j => (j.toUnsigned? width).map (BitVec.ofNat width)) fun _ => [] := by
  refine .floatless (fun _ => plain_ofInt _) fun b => ?_
  rw [toUnsigned?_ofInt, Option.map_some, BitVec.ofNat_toNat, BitVec.setWidth_eq]

theorem signed_mirrors :
    FloatMirrors (fun b : BitVec width => .ofInt b.toInt)
      (fun j => (j.toSigned? width).map (BitVec.ofInt width)) fun _ => [] := by
  refine .floatless (fun _ => plain_ofInt _) fun b => ?_
  rw [toSigned?_ofInt, Option.map_some, BitVec.ofInt_toInt]

theorem truth_mirrors :
    FloatMirrors (fun b : BitVec 1 => .bool (b.toNat == 1))
      (fun j => j.toBool?.map fun b => if b then (1 : BitVec 1) else 0) fun _ => [] := by
  have hback : ∀ b : BitVec 1, (if b.toNat == 1 then (1 : BitVec 1) else 0) = b := by decide
  exact .floatless (fun _ => .bool _) fun b => congrArg some (hback b)

theorem element_mirrors (t : ElementType) :
    FloatMirrors (elementToJson t) (elementOfJson? t) fun b => (elementFloat? t b).toList := by
  cases t with
  | float32 | float64 => exact float_mirrors
  | uint8 | float16 => exact unsigned_mirrors
  | int8 | int16 | int32 | int64 => exact signed_mirrors
  | bool => exact truth_mirrors

end Elements

theorem find?_dataName (t : ElementType) :
    (ElementType.all.find? fun t' => dataName t' == dataName t) = some t := by
  cases t <;> rfl

/-- The name of the data leads to the reader of its elements. -/
theorem bufferOfJson?_bufferToJson (b : Buffer) :
    bufferOfJson? (bufferToJson b) =
      (toListOf? (elementOfJson? b.elementType)
        (.array (b.elements.map (elementToJson b.elementType)))).map (Buffer.mk b.elementType) := by
  have hchoice : toChoice? (bufferToJson b) = some (dataName b.elementType,
      some (.array (b.elements.map (elementToJson b.elementType)))) := rfl
  simp only [bufferOfJson?, hchoice, find?_dataName, Option.bind_eq_bind, Option.bind_some,
    Option.pure_def]
  rw [Option.map_eq_bind]
  rfl

theorem buffer_mirrors : FloatMirrors bufferToJson bufferOfJson? bufferFloats where
  plain b := plain_ofFields (List.forall_mem_singleton.mpr
    ((element_mirrors b.elementType).list.plain b.elements))
  read_back {b} h := by
    have helements := (element_mirrors b.elementType).list.read_back h
    rw [bufferOfJson?_bufferToJson, helements, Option.map_some]
  read_none {b} h := by
    have helements := (element_mirrors b.elementType).list.read_none h
    rw [bufferOfJson?_bufferToJson, helements, Option.map_none]

/-! ## Records -/

theorem toText?_ofString (s : String) : (ofString s).toText? = some s := rfl

theorem elementTypeOfJson?_ofString (t : ElementType) :
    elementTypeOfJson? (.ofString (elementTypeName t)) = some t := by
  cases t <;> rfl

theorem toListOf?_textsToJson (ss : List String) :
    toListOf? toText? (textsToJson ss) = some ss :=
  text_mirrors.list.read_back fun _ _ => trivial

theorem toListOf?_intsToJson (is : List Int64) :
    toListOf? toInt64? (intsToJson is) = some is :=
  int64_mirrors.list.read_back fun _ _ => trivial

/-- Of a tensor only the data may be unreadable. -/
theorem TensorNode.ofJson?_toJson (t : TensorNode) :
    TensorNode.ofJson? t.toJson =
      (toOptionOf? bufferOfJson? ((t.data.map bufferToJson).getD .null)).map
        fun data => { t with data := data } := by
  have hrecord : t.toJson.toRecord? ["name", "dtype", "dims", "data"] = _ :=
    toRecord?_ofFields rfl (by decide)
  simp only [TensorNode.ofJson?, hrecord, Record.required?, Record.nullable?]
  simp only [Option.pure_def, Option.bind_eq_bind, Option.bind_some, Record.find?_cons_self,
    Record.find?_cons_of_ne, ne_eq, String.reduceEq, not_false_eq_true, toText?_ofString,
    elementTypeOfJson?_ofString, toListOf?_intsToJson]
  exact (Option.map_eq_bind ..).symm

theorem tensorNode_mirrors :
    FloatMirrors TensorNode.toJson TensorNode.ofJson? TensorNode.floats where
  plain t := by
    have hdims := int64_mirrors.list.plain t.dims
    have hdata := (buffer_mirrors.option nofun).plain t.data
    exact plain_ofFields (by simpa [plain_ofString] using ⟨hdims, hdata⟩)
  read_back {t} h := by
    rw [t.ofJson?_toJson, (buffer_mirrors.option nofun).read_back h, Option.map_some]
  read_none {t} h := by
    rw [t.ofJson?_toJson, (buffer_mirrors.option nofun).read_none h, Option.map_none]

/-- The name of the alternative leads to the reader of what is given. -/
theorem Attribute.ofJson?_toJson (v : Attribute) :
    Attribute.ofJson? v.toJson =
      match v with
      | .int i => (toInt64? (ofInt i.toInt)).map .int
      | .ints is => (toListOf? toInt64? (intsToJson is)).map .ints
      | .float bits =>
          (((floatToJson singleStyle .single bits.toNat).toFloat? .single).map
            (BitVec.ofNat 32)).map .float
      | .text s => (toText? (ofString s)).map .text := by
  cases v with
  | int i => exact (Option.map_eq_bind ..).symm
  | ints is => exact (Option.map_eq_bind ..).symm
  | float bits =>
      simp only [Option.map_map]
      exact (Option.map_eq_bind ..).symm
  | text s => rfl

theorem attribute_mirrors : FloatMirrors Attribute.toJson Attribute.ofJson? Attribute.floats where
  plain v := by
    cases v <;> refine plain_ofFields (List.forall_mem_singleton.mpr ?_)
    · exact plain_ofInt _
    · exact int64_mirrors.list.plain _
    · exact plain_floatToJson _ _ _
    · exact plain_ofString _
  read_back {v} h := by
    rw [v.ofJson?_toJson]
    cases v with
    | int i => simp only [int64_mirrors.read_back trivial, Option.map_some]
    | ints is => simp only [toListOf?_intsToJson, Option.map_some]
    | float bits => simp only [float_mirrors.read_back h, Option.map_some]
    | text s => rfl
  read_none {v} h := by
    rw [v.ofJson?_toJson]
    cases v with
    | float bits => simp only [float_mirrors.read_none h, Option.map_none]
    | int | ints | text => exact (List.not_mem_nil h.choose_spec.1).elim

/-- Of a node only the attributes may be unreadable. -/
theorem Node.ofJson?_toJson (n : Node) :
    Node.ofJson? n.toJson =
      (toEntriesOf? Attribute.ofJson?
        (.ofFields (n.attributes.entries.map fun (key, v) => (key, v.toJson)))).map
        fun entries => { n with attributes := .ofEntries entries } := by
  have hrecord : n.toJson.toRecord? ["name", "op_type", "inputs", "outputs", "attributes"] = _ :=
    toRecord?_ofFields rfl (by decide)
  simp only [Node.ofJson?, hrecord, Record.required?]
  simp only [Option.pure_def, Option.bind_eq_bind, Option.bind_some, Record.find?_cons_self,
    Record.find?_cons_of_ne, ne_eq, String.reduceEq, not_false_eq_true, toText?_ofString,
    toListOf?_textsToJson]
  exact (Option.map_eq_bind ..).symm

theorem node_mirrors : FloatMirrors Node.toJson Node.ofJson? Node.floats where
  plain n := by
    have hentries := attribute_mirrors.entries.plain n.attributes.entries
    have htexts : ∀ ss, (textsToJson ss).Plain := fun ss => plain_map plain_ofString
    exact plain_ofFields (by simpa [plain_ofString, htexts] using hentries)
  read_back {n} h := by
    rw [n.ofJson?_toJson, attribute_mirrors.entries.read_back h, Option.map_some,
      SortedMap.ofEntries_entries]
  read_none {n} h := by
    rw [n.ofJson?_toJson, attribute_mirrors.entries.read_none h, Option.map_none]

/-- A graph is read list by list. -/
theorem Graph.ofJson?_toJson (g : Graph) :
    Graph.ofJson? g.toJson = do
      let nodes ← toListOf? Node.ofJson? (.array (g.nodes.map Node.toJson))
      let initializers ← toListOf? TensorNode.ofJson?
        (.array (g.initializers.map TensorNode.toJson))
      let inputs ← toListOf? TensorNode.ofJson? (.array (g.inputs.map TensorNode.toJson))
      let outputs ← toListOf? TensorNode.ofJson? (.array (g.outputs.map TensorNode.toJson))
      let valueInfos ← toListOf? TensorNode.ofJson? (.array (g.valueInfos.map TensorNode.toJson))
      return ⟨g.name, nodes, initializers, inputs, outputs, valueInfos⟩ := by
  have hrecord : g.toJson.toRecord?
      ["name", "nodes", "initializers", "inputs", "outputs", "value_infos"] = _ :=
    toRecord?_ofFields rfl (by decide)
  simp only [Graph.ofJson?, hrecord, Record.required?]
  simp [Record.find?_cons_self, Record.find?_cons_of_ne, toText?_ofString]

/-! ## Models -/

theorem graph_mirrors : FloatMirrors Graph.toJson Graph.ofJson? Graph.floats where
  plain g := by
    have hnodes := node_mirrors.list.plain g.nodes
    have htensors := fun ts => tensorNode_mirrors.list.plain ts
    exact plain_ofFields (by simpa [plain_ofString, htensors] using hnodes)
  read_back {g} h := by
    obtain ⟨hnodes, htensors⟩ := legible_append.mp h
    simp only [Graph.tensors, List.flatMap_append, legible_append] at htensors
    obtain ⟨⟨⟨hinitializers, hinputs⟩, houtputs⟩, hvalues⟩ := htensors
    have hread := fun ts => tensorNode_mirrors.list.read_back (a := ts)
    rw [g.ofJson?_toJson, node_mirrors.list.read_back hnodes, hread _ hinitializers,
      hread _ hinputs, hread _ houtputs, hread _ hvalues]
    rfl
  read_none {g} h := by
    have hread := fun ts => tensorNode_mirrors.list.read_none (a := ts)
    rw [g.ofJson?_toJson]
    simp only [Graph.floats, Graph.tensors, List.flatMap_append, blotted_append] at h
    rcases h with hnodes | ((hinitializers | hinputs) | houtputs) | hvalues
    · rw [node_mirrors.list.read_none hnodes]
      rfl
    · simp [hread _ hinitializers]
    · simp [hread _ hinputs]
    · simp [hread _ houtputs]
    · simp [hread _ hvalues]

/-- Of a model only the graph may be unreadable. -/
theorem Model.ofJson?_toJson (m : Model) :
    Model.ofJson? m.toJson = (Graph.ofJson? m.graph.toJson).map fun g => { m with graph := g } := by
  have hrecord : m.toJson.toRecord?
      ["ir_version", "opset_version", "producer_name", "producer_version", "graph"] = _ :=
    toRecord?_ofFields rfl (by decide)
  have hint := fun i : Int64 => int64_mirrors.read_back (a := i) trivial
  simp only [Model.ofJson?, hrecord, Record.required?]
  simp only [Option.pure_def, Option.bind_eq_bind, Option.bind_some, Record.find?_cons_self,
    Record.find?_cons_of_ne, ne_eq, String.reduceEq, not_false_eq_true, toText?_ofString, hint]
  exact (Option.map_eq_bind ..).symm

theorem model_mirrors : FloatMirrors Model.toJson Model.ofJson? Model.floats where
  plain m := by
    have hgraph := graph_mirrors.plain m.graph
    exact plain_ofFields (by simpa [plain_ofString, plain_ofInt] using hgraph)
  read_back {m} h := by
    rw [m.ofJson?_toJson, graph_mirrors.read_back h, Option.map_some]
  read_none {m} h := by
    rw [m.ofJson?_toJson, graph_mirrors.read_none h, Option.map_none]

theorem Model.parse_print (m : Model) : Model.parse m.print = Model.ofJson? m.toJson := by
  rw [Model.parse, Model.print, (model_mirrors.plain m).parse_print, Option.bind_some]

/-- A model whose finite floats are written as decimals that read back comes
back from its document exactly if all its floats are finite, and its document
is refused exactly if one of them is no number. -/
theorem Model.json_faithful (m : Model) (hback : ∀ x ∈ m.floats, x.Finite → x.ReadsBack) :
    (Model.parse m.print = some m ↔ ∀ x ∈ m.floats, x.Finite) ∧
    (Model.parse m.print = none ↔ ∃ x ∈ m.floats, ¬x.Finite) := by
  have hkept : (∀ x ∈ m.floats, x.Finite) → Model.parse m.print = some m := fun h => by
    rw [m.parse_print]
    exact model_mirrors.read_back fun x hx => ⟨h x hx, hback x hx (h x hx)⟩
  have hlost : (∃ x ∈ m.floats, ¬x.Finite) → Model.parse m.print = none := fun h => by
    rw [m.parse_print]
    exact model_mirrors.read_none h
  refine ⟨⟨fun hread x hx => ?_, hkept⟩, ⟨fun hread => ?_, hlost⟩⟩
  · by_contra hnot
    rw [hlost ⟨x, hx, hnot⟩] at hread
    cases hread
  · by_contra hall
    rw [hkept (by simpa using hall)] at hread
    cases hread

/-- Names that need escapes, the ends of the integers, and floats at the ends of
their formats. -/
def quotedConstant : Model where
  irVersion := Int64.minValue
  opsetVersion := Int64.maxValue
  producerName := "re\"layout\\"
  producerVersion := ""
  graph := {
    name := "\x01\n😀é"
    nodes := [{
      name := "\t"
      opType := "Scale"
      inputs := ["", "x"]
      outputs := []
      attributes := .ofEntries [("b", .float 0x3f000000), ("a", .text "\r/")] }]
    initializers := [
      ⟨"x", .float32, [4], some ⟨.float32, [0x3dcccccd, 0x80000000, 1, 0x7f7fffff]⟩⟩,
      ⟨"y", .float64, [1], some ⟨.float64, [0x3fb999999999999a]⟩⟩,
      ⟨"z", .float16, [1], some ⟨.float16, [0x7e00]⟩⟩]
    inputs := []
    outputs := [⟨"", .bool, [-1], some ⟨.bool, [1, 0]⟩⟩]
    valueInfos := [⟨"v", .int8, [], none⟩] }

theorem Model.json_faithful_quotedConstant :
    (∀ x ∈ quotedConstant.floats, x.Finite → x.ReadsBack) ∧
      Model.parse quotedConstant.print = some quotedConstant ∧
      (∀ x ∈ turnedConstant.floats, x.Finite → x.ReadsBack) ∧
      Model.parse turnedConstant.print = none := by
  have hback : ∀ x ∈ quotedConstant.floats, x.Finite → x.ReadsBack := by decide +kernel
  have hturned : ∀ x ∈ turnedConstant.floats, x.Finite → x.ReadsBack := by decide +kernel
  exact ⟨hback, (Model.json_faithful _ hback).1.mpr (by decide +kernel), hturned,
    (Model.json_faithful _ hturned).2.mpr (by decide +kernel)⟩

end Relayout.Target
