/-
# The binary form is faithful

A model that a machine of 64-bit addresses can hold is read back from its
binary form, whatever bytes follow.  In the other direction the form is not
quite unique: the entries of an attribute map are written in the order of their
keys, but they are read in any order, and of a repeated key the last entry
stays.  So the bytes are first read into a *written* model, which keeps the
entries as they stand; there the format is lawful in both directions, and the
codec of models is that of written models with the entries sorted.
-/
import Mathlib.Tactic.MkIffOfInductiveProp
import Relayout.Proofs.Wire.Codec
import Relayout.Target.Binary

namespace Relayout

/-! ## Maps from entries -/

namespace SortedMap

variable {β : Type} {m : SortedMap β} {entries : List (String × β)} {key : String} {value : β}

theorem length_insertEntry_le : (insertEntry key value entries).length ≤ entries.length + 1 := by
  induction entries with
  | nil => exact Nat.le_refl 1
  | cons e entries ih =>
      unfold insertEntry
      split
      · exact Nat.le_refl _
      · split
        · exact Nat.le_succ _
        · exact Nat.succ_le_succ ih

theorem insertEntry_of_lt (h : ∀ e ∈ entries, e.1 < key) :
    insertEntry key value entries = entries ++ [(key, value)] := by
  induction entries with
  | nil => rfl
  | cons e entries ih =>
      have hlt : e.1 < key := h e List.mem_cons_self
      have hnlt : ¬key < e.1 := String.lt_asymm hlt
      have hne : key ≠ e.1 := fun heq => String.lt_irrefl _ (heq ▸ hlt)
      rw [insertEntry, if_neg hnlt, if_neg hne, ih fun e he => h e (List.mem_cons_of_mem _ he)]
      rfl

theorem mem_foldl_insert {e : String × β}
    (h : e ∈ (entries.foldl (fun m (key, value) => m.insert key value) m).entries) :
    e ∈ m.entries ∨ e ∈ entries := by
  induction entries generalizing m with
  | nil => exact Or.inl h
  | cons e' entries ih =>
      rcases ih h with h | h
      · rcases mem_insertEntry h with rfl | h
        · exact Or.inr List.mem_cons_self
        · exact Or.inl h
      · exact Or.inr (List.mem_cons_of_mem _ h)

theorem length_foldl_insert_le :
    (entries.foldl (fun m (key, value) => m.insert key value) m).entries.length ≤
      m.entries.length + entries.length := by
  induction entries generalizing m with
  | nil => exact Nat.le_refl _
  | cons e entries ih =>
      have hone : (m.insert e.1 e.2).entries.length ≤ m.entries.length + 1 :=
        length_insertEntry_le
      calc ((e :: entries).foldl _ m).entries.length
          ≤ (m.insert e.1 e.2).entries.length + entries.length := ih
        _ ≤ m.entries.length + (e :: entries).length := by
            rw [List.length_cons]
            omega

/-- Entries that go on ascending are appended one by one. -/
theorem entries_foldl_insert (h : (m.entries ++ entries).Pairwise fun a b => a.1 < b.1) :
    (entries.foldl (fun m (key, value) => m.insert key value) m).entries =
      m.entries ++ entries := by
  induction entries generalizing m with
  | nil => exact (List.append_nil _).symm
  | cons e entries ih =>
      have hlast : ∀ e' ∈ m.entries, e'.1 < e.1 := fun e' he' =>
        (List.pairwise_append.mp h).2.2 e' he' e List.mem_cons_self
      have hinsert : (m.insert e.1 e.2).entries = m.entries ++ [e] := insertEntry_of_lt hlast
      have hsplit : m.entries ++ e :: entries = (m.insert e.1 e.2).entries ++ entries := by
        rw [hinsert, List.append_assoc]
        rfl
      rw [List.foldl_cons, ih (hsplit ▸ h), hsplit]

theorem entries_ofEntries (h : entries.Pairwise fun a b => a.1 < b.1) :
    (ofEntries entries).entries = entries :=
  entries_foldl_insert (m := empty) h

@[simp] theorem ofEntries_entries (m : SortedMap β) : ofEntries m.entries = m := by
  have h := entries_ofEntries m.sorted
  generalize ofEntries m.entries = m' at h
  cases m
  cases m'
  cases h
  rfl

theorem mem_ofEntries {e : String × β} (h : e ∈ (ofEntries entries).entries) : e ∈ entries :=
  (mem_foldl_insert h).resolve_left List.not_mem_nil

theorem length_ofEntries_le : (ofEntries entries).entries.length ≤ entries.length :=
  Nat.le_trans length_foldl_insert_le (Nat.le_of_eq (Nat.zero_add _))

end SortedMap

namespace Target

open Wire Codec

/-! ## Types, data and attributes -/

theorem elementTypeCodec_lawful : elementTypeCodec.Lawful fun _ => True :=
  oneOf_lawful (by decide) (by decide) fun t => by cases t <;> decide

theorem dataKindCodec_lawful : dataKindCodec.Lawful fun _ => True :=
  oneOf_lawful (by decide) (by decide) fun t => by cases t <;> decide

theorem elementCodec_lawful (t : ElementType) : (elementCodec t).Lawful fun _ => True := by
  cases t
  case bool =>
      have hback : ∀ b : BitVec 1, BitVec.ofBool (b == 1) = b := by decide
      exact truth_lawful.iso hback (by decide)
  all_goals exact bits_lawful (by decide)

theorem bufferCodec_lawful : bufferCodec.Lawful fun b => b.elements.length < 2 ^ 64 := by
  have hparts := dataKindCodec_lawful.tagged fun t => list_lawful (elementCodec_lawful t)
  refine (hparts.iso (fun _ => rfl) fun _ => rfl).congr fun b => ?_
  exact ⟨fun h => h.2.1, fun h => ⟨trivial, h, fun _ _ => trivial⟩⟩

/-- An attribute whose length a 64-bit number can tell. -/
def Attribute.Addressable : Attribute → Prop
  | .int _ => True
  | .ints values => values.length < 2 ^ 64
  | .float _ => True
  | .text value => value.utf8ByteSize < 2 ^ 64

instance : DecidablePred Attribute.Addressable
  | .int _ => inferInstanceAs (Decidable True)
  | .ints values => inferInstanceAs (Decidable (values.length < 2 ^ 64))
  | .float _ => inferInstanceAs (Decidable True)
  | .text value => inferInstanceAs (Decidable (value.utf8ByteSize < 2 ^ 64))

theorem payloadCodec_lawful (k : AttributeKind) :
    k.payloadCodec.Lawful fun x => (Attribute.join ⟨k, x⟩).Addressable := by
  cases k with
  | int => exact int64_lawful
  | ints => exact (list_lawful int64_lawful).congr fun _ => and_iff_left fun _ _ => trivial
  | float => exact bits_lawful (by decide)
  | text => exact text_lawful

theorem attributeCodec_lawful : attributeCodec.Lawful Attribute.Addressable := by
  have hkinds : (oneOf [AttributeKind.int, .ints, .float, .text]).Lawful fun _ => True :=
    oneOf_lawful (by decide) (by decide) fun k => by cases k <;> decide
  have hjoin : ∀ a, Attribute.join a.split = a := fun a => by cases a <;> rfl
  have hsplit : ∀ p, (Attribute.join p).split = p := fun ⟨k, x⟩ => by cases k <;> rfl
  refine ((hkinds.tagged payloadCodec_lawful).iso hjoin hsplit).congr fun a => ?_
  cases a <;> exact true_and _ ▸ Iff.rfl

/-! ## Tensors -/

/-- A tensor whose lengths a 64-bit number can tell. -/
@[mk_iff]
structure TensorNode.Addressable (t : TensorNode) : Prop where
  name : t.name.utf8ByteSize < 2 ^ 64
  dims : t.dims.length < 2 ^ 64
  data : ∀ b ∈ t.data, b.elements.length < 2 ^ 64

instance : DecidablePred TensorNode.Addressable := fun t =>
  decidable_of_iff' _ (TensorNode.addressable_iff t)

theorem tensorNodeCodec_lawful : tensorNodeCodec.Lawful TensorNode.Addressable := by
  have hparts := text_lawful.pair <| elementTypeCodec_lawful.pair <|
    (list_lawful int64_lawful).pair <| option_lawful bufferCodec_lawful
  refine (hparts.iso (fun _ => rfl) fun _ => rfl).congr fun t => ?_
  constructor
  · rintro ⟨hname, -, ⟨hdims, -⟩, hdata⟩
    exact ⟨hname, hdims, hdata⟩
  · rintro ⟨hname, hdims, hdata⟩
    exact ⟨hname, trivial, ⟨hdims, fun _ _ => trivial⟩, hdata⟩

/-! ## Written models -/

/-- A node as its bytes list it: the entries of its attributes stand in the
order in which they were written, repeated keys included. -/
structure WrittenNode where
  name : String
  opType : String
  inputs : List String
  outputs : List String
  entries : List (String × Attribute)

structure WrittenGraph where
  name : String
  nodes : List WrittenNode
  initializers : List TensorNode
  inputs : List TensorNode
  outputs : List TensorNode
  valueInfos : List TensorNode

structure WrittenModel where
  irVersion : Int64
  opsetVersion : Int64
  producerName : String
  producerVersion : String
  graph : WrittenGraph

def WrittenNode.node (w : WrittenNode) : Node :=
  ⟨w.name, w.opType, w.inputs, w.outputs, .ofEntries w.entries⟩

def WrittenGraph.graph (w : WrittenGraph) : Graph :=
  ⟨w.name, w.nodes.map WrittenNode.node, w.initializers, w.inputs, w.outputs, w.valueInfos⟩

def WrittenModel.model (w : WrittenModel) : Model :=
  ⟨w.irVersion, w.opsetVersion, w.producerName, w.producerVersion, w.graph.graph⟩

/-- A node as it is written: by ascending keys. -/
def Node.written (n : Node) : WrittenNode :=
  ⟨n.name, n.opType, n.inputs, n.outputs, n.attributes.entries⟩

def Graph.written (g : Graph) : WrittenGraph :=
  ⟨g.name, g.nodes.map Node.written, g.initializers, g.inputs, g.outputs, g.valueInfos⟩

def Model.written (m : Model) : WrittenModel :=
  ⟨m.irVersion, m.opsetVersion, m.producerName, m.producerVersion, m.graph.written⟩

@[simp] theorem Node.node_written (n : Node) : n.written.node = n :=
  congrArg (Node.mk n.name n.opType n.inputs n.outputs) n.attributes.ofEntries_entries

@[simp] theorem Graph.graph_written (g : Graph) : g.written.graph = g := by
  have hnodes : (g.nodes.map Node.written).map WrittenNode.node = g.nodes := by
    rw [List.map_map]
    exact List.map_id'' Node.node_written g.nodes
  exact congrArg (fun nodes => Graph.mk g.name nodes g.initializers g.inputs g.outputs
    g.valueInfos) hnodes

@[simp] theorem Model.model_written (m : Model) : m.written.model = m :=
  congrArg (Model.mk m.irVersion m.opsetVersion m.producerName m.producerVersion)
    m.graph.graph_written

/-- Ascending entries are what the map of them is written as. -/
theorem WrittenNode.written_node {w : WrittenNode}
    (h : w.entries.Pairwise fun a b => a.1 < b.1) : w.node.written = w :=
  congrArg (WrittenNode.mk w.name w.opType w.inputs w.outputs) (SortedMap.entries_ofEntries h)

theorem WrittenModel.written_model {w : WrittenModel}
    (h : ∀ n ∈ w.graph.nodes, n.entries.Pairwise fun a b => a.1 < b.1) :
    w.model.written = w := by
  have hnodes : (w.graph.nodes.map WrittenNode.node).map Node.written = w.graph.nodes := by
    rw [List.map_map]
    exact (List.map_congr_left fun n hn => WrittenNode.written_node (h n hn)).trans
      (List.map_id _)
  exact congrArg (fun nodes => WrittenModel.mk w.irVersion w.opsetVersion w.producerName
    w.producerVersion ⟨w.graph.name, nodes, w.graph.initializers, w.graph.inputs,
      w.graph.outputs, w.graph.valueInfos⟩) hnodes

/-! ## The codecs of written models -/

def writtenNodeCodec : Codec WrittenNode :=
  (Codec.text.pair <| Codec.text.pair <| (Codec.list .text).pair <| (Codec.list .text).pair <|
      Codec.list (Codec.text.pair attributeCodec)).map
    (fun (name, opType, inputs, outputs, entries) => ⟨name, opType, inputs, outputs, entries⟩)
    fun w => (w.name, w.opType, w.inputs, w.outputs, w.entries)

def writtenGraphCodec : Codec WrittenGraph :=
  (Codec.text.pair <| (Codec.list writtenNodeCodec).pair <|
      (Codec.list tensorNodeCodec).pair <| (Codec.list tensorNodeCodec).pair <|
      (Codec.list tensorNodeCodec).pair <| Codec.list tensorNodeCodec).map
    (fun (name, nodes, initializers, inputs, outputs, valueInfos) =>
      ⟨name, nodes, initializers, inputs, outputs, valueInfos⟩)
    fun w => (w.name, w.nodes, w.initializers, w.inputs, w.outputs, w.valueInfos)

def writtenModelCodec : Codec WrittenModel :=
  (Codec.int64.pair <| Codec.int64.pair <| Codec.text.pair <| Codec.text.pair
      writtenGraphCodec).map
    (fun (irVersion, opsetVersion, producerName, producerVersion, graph) =>
      ⟨irVersion, opsetVersion, producerName, producerVersion, graph⟩)
    fun w => (w.irVersion, w.opsetVersion, w.producerName, w.producerVersion, w.graph)

theorem nodeCodec_eq : nodeCodec = writtenNodeCodec.map WrittenNode.node Node.written := by
  rw [nodeCodec, writtenNodeCodec, map_map]
  rfl

theorem graphCodec_eq : graphCodec = writtenGraphCodec.map WrittenGraph.graph Graph.written := by
  rw [graphCodec, nodeCodec_eq, list_map, pair_map_left, pair_map_right, map_map,
    writtenGraphCodec, map_map]
  rfl

/-- Models are coded as written models whose entries are sorted. -/
theorem modelCodec_eq : modelCodec = writtenModelCodec.map WrittenModel.model Model.written := by
  rw [modelCodec, graphCodec_eq]
  simp only [pair_map_right]
  rw [map_map, writtenModelCodec, map_map]
  rfl

/-- A node whose lengths a 64-bit number can tell. -/
@[mk_iff]
structure WrittenNode.Addressable (w : WrittenNode) : Prop where
  name : w.name.utf8ByteSize < 2 ^ 64
  opType : w.opType.utf8ByteSize < 2 ^ 64
  inputs : w.inputs.length < 2 ^ 64 ∧ ∀ s ∈ w.inputs, s.utf8ByteSize < 2 ^ 64
  outputs : w.outputs.length < 2 ^ 64 ∧ ∀ s ∈ w.outputs, s.utf8ByteSize < 2 ^ 64
  entries : w.entries.length < 2 ^ 64 ∧
    ∀ e ∈ w.entries, e.1.utf8ByteSize < 2 ^ 64 ∧ e.2.Addressable

@[mk_iff]
structure WrittenGraph.Addressable (w : WrittenGraph) : Prop where
  name : w.name.utf8ByteSize < 2 ^ 64
  nodes : w.nodes.length < 2 ^ 64 ∧ ∀ n ∈ w.nodes, n.Addressable
  initializers : w.initializers.length < 2 ^ 64 ∧ ∀ t ∈ w.initializers, t.Addressable
  inputs : w.inputs.length < 2 ^ 64 ∧ ∀ t ∈ w.inputs, t.Addressable
  outputs : w.outputs.length < 2 ^ 64 ∧ ∀ t ∈ w.outputs, t.Addressable
  valueInfos : w.valueInfos.length < 2 ^ 64 ∧ ∀ t ∈ w.valueInfos, t.Addressable

@[mk_iff]
structure WrittenModel.Addressable (w : WrittenModel) : Prop where
  producerName : w.producerName.utf8ByteSize < 2 ^ 64
  producerVersion : w.producerVersion.utf8ByteSize < 2 ^ 64
  graph : w.graph.Addressable

instance : DecidablePred WrittenNode.Addressable := fun w =>
  decidable_of_iff' _ (WrittenNode.addressable_iff w)

instance : DecidablePred WrittenGraph.Addressable := fun w =>
  decidable_of_iff' _ (WrittenGraph.addressable_iff w)

instance : DecidablePred WrittenModel.Addressable := fun w =>
  decidable_of_iff' _ (WrittenModel.addressable_iff w)

theorem writtenNodeCodec_lawful : writtenNodeCodec.Lawful WrittenNode.Addressable := by
  have hparts := text_lawful.pair <| text_lawful.pair <| (list_lawful text_lawful).pair <|
    (list_lawful text_lawful).pair <| list_lawful (text_lawful.pair attributeCodec_lawful)
  exact (hparts.iso (fun _ => rfl) fun _ => rfl).congr fun w =>
    (WrittenNode.addressable_iff w).symm

theorem writtenGraphCodec_lawful : writtenGraphCodec.Lawful WrittenGraph.Addressable := by
  have htensors := list_lawful tensorNodeCodec_lawful
  have hparts := text_lawful.pair <| (list_lawful writtenNodeCodec_lawful).pair <|
    htensors.pair <| htensors.pair <| htensors.pair htensors
  exact (hparts.iso (fun _ => rfl) fun _ => rfl).congr fun w =>
    (WrittenGraph.addressable_iff w).symm

theorem writtenModelCodec_lawful : writtenModelCodec.Lawful WrittenModel.Addressable := by
  have hparts := int64_lawful.pair <| int64_lawful.pair <| text_lawful.pair <|
    text_lawful.pair writtenGraphCodec_lawful
  refine (hparts.iso (fun _ => rfl) fun _ => rfl).congr fun w => ?_
  constructor
  · rintro ⟨-, -, hname, hversion, hgraph⟩
    exact ⟨hname, hversion, hgraph⟩
  · rintro ⟨hname, hversion, hgraph⟩
    exact ⟨trivial, trivial, hname, hversion, hgraph⟩

/-! ## Models -/

/-- A model that a machine of 64-bit addresses can hold: the length of every
list and text in it is a 64-bit number. -/
def Model.Addressable (m : Model) : Prop := m.written.Addressable

instance : DecidablePred Model.Addressable := fun m =>
  inferInstanceAs (Decidable m.written.Addressable)

/-- Sorting entries only drops some of them. -/
theorem WrittenNode.Addressable.sorted {w : WrittenNode} (h : w.Addressable) :
    w.node.written.Addressable where
  name := h.name
  opType := h.opType
  inputs := h.inputs
  outputs := h.outputs
  entries := ⟨Nat.lt_of_le_of_lt SortedMap.length_ofEntries_le h.entries.1,
    fun e he => h.entries.2 e (SortedMap.mem_ofEntries he)⟩

theorem WrittenModel.Addressable.sorted {w : WrittenModel} (h : w.Addressable) :
    w.model.Addressable where
  producerName := h.producerName
  producerVersion := h.producerVersion
  graph := { h.graph with
    nodes := by
      refine ⟨?_, fun n hn => ?_⟩
      · simpa [Model.written, Graph.written, model, WrittenGraph.graph] using h.graph.nodes.1
      · simp only [Model.written, Graph.written, model, WrittenGraph.graph, List.map_map,
          List.mem_map] at hn
        obtain ⟨n, hn, rfl⟩ := hn
        exact (h.graph.nodes.2 n hn).sorted }

theorem Model.ofBytes?_toBytes_append {m : Model} (h : m.Addressable) (rest : List UInt8) :
    Model.ofBytes? (m.toBytes ++ rest) = some m := by
  have hdecode := writtenModelCodec_lawful.decode_encode h rest
  simp [Model.ofBytes?, Model.toBytes, modelCodec_eq, hdecode]

theorem Model.ofBytes?_eq_some {bytes : List UInt8} {m : Model}
    (h : Model.ofBytes? bytes = some m) :
    ∃ w rest, writtenModelCodec.decode bytes = some (w, rest) ∧ w.Addressable ∧
      writtenModelCodec.encode w ++ rest = bytes ∧ w.model = m := by
  simp only [Model.ofBytes?, modelCodec_eq, decode_map, Option.map_map,
    Option.map_eq_some_iff] at h
  obtain ⟨⟨w, rest⟩, hdecode, rfl⟩ := h
  obtain ⟨hw, hbytes⟩ := writtenModelCodec_lawful.encode_decode hdecode
  exact ⟨w, rest, hdecode, hw, hbytes, rfl⟩

/-- The attribute maps of the nodes at the front of a byte string, each as the
list of its entries in the order of the bytes. -/
def attributeMaps? (bytes : List UInt8) : Option (List (List (String × Attribute))) :=
  (writtenModelCodec.decode bytes).map fun (w, _) => w.graph.nodes.map WrittenNode.entries

/-- Every model is read back from its binary form, whatever follows it.  What
is read from bytes is read again from its own binary form, and if the keys of
every attribute map in the bytes ascend strictly, that form is the bytes up to
what follows the model. -/
theorem Model.binary_faithful :
    (∀ m : Model, m.Addressable → ∀ rest, Model.ofBytes? (m.toBytes ++ rest) = some m) ∧
    ∀ (bytes : List UInt8) (m : Model), Model.ofBytes? bytes = some m →
      Model.ofBytes? m.toBytes = some m ∧
      ∃ maps, attributeMaps? bytes = some maps ∧
        m.graph.nodes.map Node.attributes = maps.map SortedMap.ofEntries ∧
        ((∀ entries ∈ maps, (entries.map Prod.fst).Pairwise (· < ·)) → m.toBytes <+: bytes) := by
  refine ⟨fun m hm rest => ofBytes?_toBytes_append hm rest, fun bytes m h => ?_⟩
  obtain ⟨w, rest, hdecode, hw, hbytes, rfl⟩ := ofBytes?_eq_some h
  have hagain := ofBytes?_toBytes_append hw.sorted []
  rw [List.append_nil] at hagain
  refine ⟨hagain, w.graph.nodes.map WrittenNode.entries, ?_, ?_, fun hsorted => ?_⟩
  · simp [attributeMaps?, hdecode]
  · simp [WrittenModel.model, WrittenGraph.graph, WrittenNode.node, List.map_map,
      Function.comp_def]
  · have hkeys : ∀ n ∈ w.graph.nodes, n.entries.Pairwise fun a b => a.1 < b.1 := fun n hn =>
      List.pairwise_map.mp (hsorted n.entries (List.mem_map_of_mem hn))
    refine ⟨rest, ?_⟩
    rw [Model.toBytes, modelCodec_eq, encode_map, WrittenModel.written_model hkeys, hbytes]

/-- One turned constant: a tensor with data and a node with two attributes. -/
def turnedConstant : Model where
  irVersion := 8
  opsetVersion := 11
  producerName := "relayout"
  producerVersion := "0.1"
  graph := {
    name := "main"
    nodes := [{
      name := "turn"
      opType := "Transpose"
      inputs := ["x"]
      outputs := ["y"]
      attributes := .ofEntries [("perm", .ints [1, 0]), ("axis", .int (-1))] }]
    initializers := [⟨"x", .float32, [1, 2], some ⟨.float32, [0x3f800000, 0x7fc00000]⟩⟩]
    inputs := []
    outputs := [⟨"y", .float32, [2, 1], none⟩]
    valueInfos := [] }

theorem Model.binary_faithful_turnedConstant :
    turnedConstant.Addressable ∧
      Model.ofBytes? (turnedConstant.toBytes ++ [7]) = some turnedConstant ∧
      (∀ entries ∈ turnedConstant.written.graph.nodes.map WrittenNode.entries,
        (entries.map Prod.fst).Pairwise (· < ·)) ∧
      turnedConstant.toBytes <+: turnedConstant.toBytes ++ [7] := by
  have hfits : turnedConstant.Addressable := by decide
  have hread := Model.binary_faithful.1 turnedConstant hfits [7]
  obtain ⟨-, maps, hmaps, -, hprefix⟩ := Model.binary_faithful.2 _ _ hread
  have hentries : maps = turnedConstant.written.graph.nodes.map WrittenNode.entries := by
    have hdecode := writtenModelCodec_lawful.decode_encode hfits [7]
    rw [Model.toBytes, modelCodec_eq, encode_map, attributeMaps?, hdecode] at hmaps
    exact (Option.some.inj hmaps).symm
  have hkeys : ∀ entries ∈ turnedConstant.written.graph.nodes.map WrittenNode.entries,
      (entries.map Prod.fst).Pairwise (· < ·) := by decide
  exact ⟨hfits, hread, hkeys, hprefix (hentries ▸ hkeys)⟩

end Target

end Relayout
