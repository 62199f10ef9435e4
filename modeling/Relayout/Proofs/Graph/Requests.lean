/-
# Requesting tensors

A request stops because of the input, or it leaves a graph that differs at most
by one tensor, put at the end and just read.  What the registry holds then is
what the requests so far and this one call for.
-/
import Relayout.Proofs.Graph.Answers
import Relayout.Proofs.Graph.Registry

namespace Relayout.Graph

variable {s : Scope} {requests : List Request} {shapes : List String} {g : Graph}

/-- The tensors of a graph without their edges. -/
def bares (g : Graph) : List Tensor := g.tensors.map Tensor.bare

theorem getElem?_bares {i : Nat} {t : Tensor} (h : g.tensors[i]? = some t) :
    g.bares[i]? = some t.bare := by
  rw [bares, List.getElem?_map, h, Option.map_some]

theorem mem_bares {i : Nat} {t : Tensor} (h : g.tensors[i]? = some t) : t.bare ∈ g.bares :=
  List.mem_of_getElem? (getElem?_bares h)

/-- What a request for the tensor `d` leaves behind. -/
def Requested (s : Scope) (requests : List Request) (shapes : List String) (g : Graph)
    (index : Int64) (layout : Option Layout) (id : TensorId) (g' : Graph) : Prop :=
  ∃ d ts names ws, s.subgraph.tensor index = .ok d ∧
    g' = { g with tensors := g.tensors ++ ts, byName := names, warnings := ws } ∧
    g'.Named ∧ g'.nameOf? id = some d.name ∧
    (∀ t ∈ ts, g'.tensors[id.index]? = some t ∧ t.bare = t ∧ t.layout = layout ∧
      ∃ k d, t.sourceIndex = some k ∧ s.subgraph.tensors[k]? = some d ∧ t.shape = d.extents) ∧
    Registry s (requests ++ [(d.name, layout)]) shapes g'.bares

/-- What a request finds: a new name, or a tensor with the layout that a strict
scope grants. -/
def Found (s : Scope) (g : Graph) (index : Int64) (layout : Option Layout) (constant : Bool)
    (d : Source.TensorDecl) (id : TensorId) (g' : Graph) : Prop :=
  (∀ t ∈ g.tensors, t.name ≠ d.name) ∧ id = ⟨g.tensors.length⟩ ∧
      g' = g.adding (.fresh d.name (some index.toInt.toNat) layout constant ⟨g.tensors.length⟩) ∨
    ∃ t ws, g.tensors[id.index]? = some t ∧ t.name = d.name ∧
      (s.strict = true → ∀ l, layout = some l → t.layout = some l) ∧ g' = { g with warnings := ws }

theorem request_ends (s : Scope) (hg : g.Named) (index : Int64) (layout : Option Layout)
    (constant : Bool) :
    Step.Ends Fault.FromInput
      (fun id g' => ∃ d, s.subgraph.tensor index = .ok d ∧ Found s g index layout constant d id g')
      (request s index layout constant g) := by
  have h := answer_request s hg index layout constant
  generalize request s index layout constant g = r at h
  cases h with
  | dangling h => exact trivial
  | refused hd hid ht h => exact trivial
  | found hd ht hname h =>
      exact ⟨_, hd, Or.inr ⟨_, _, ht, hname,
        fun hstrict l hl => layout_of_granted h hstrict hl, rfl⟩⟩
  | created hd hnew => exact ⟨_, hd, Or.inl ⟨(lookup?_eq_none hg).mp hnew, rfl, rfl⟩⟩

/-- A new tensor, registered as it was declared. -/
theorem requested_declared (h : Registry s requests shapes g.bares) (hg : g.Named)
    {index : Int64} (layout : Option Layout) (id : TensorId) {d : Source.TensorDecl}
    {type : ElementType} (hd : s.subgraph.tensor index = .ok d) (hr : s.Reads d type)
    (hnew : ∀ t ∈ g.tensors, t.name ≠ d.name) :
    Requested s requests shapes g index layout ⟨g.tensors.length⟩
      (g.adding (.declared s index.toInt.toNat d type layout id)) := by
  have hdecl := (Source.Subgraph.tensor_eq_ok.mp hd).2
  have horigin : Origin s (.declared s index.toInt.toNat d type layout id) :=
    .source layout hdecl hr
  refine ⟨d, [.declared s index.toInt.toNat d type layout id], _, g.warnings, hd, rfl,
    hg.adding ((lookup?_eq_none hg).mpr hnew), by simp [nameOf?, adding, Tensor.declared], ?_, ?_⟩
  · intro t ht
    obtain rfl := List.mem_singleton.mp ht
    exact ⟨by simp [adding], rfl, rfl, _, d, rfl, hdecl, rfl⟩
  · rw [bares, adding, List.map_append, List.map_singleton, horigin.bare]
    refine h.add horigin fun t ht => ?_
    obtain ⟨u, hu, rfl⟩ := List.mem_map.mp ht
    exact hnew u hu

theorem requestParsed_ends (h : Registry s requests shapes g.bares) (hg : g.Named)
    (index : Int64) (layout : Option Layout) (constant : Bool) :
    Step.Ends Fault.FromInput (Requested s requests shapes g index layout)
      (requestParsed s index layout constant g) := by
  unfold requestParsed
  refine (request_ends s hg index layout constant).bind ?_
  rintro id g' ⟨d, hd, ⟨hnew, rfl, rfl⟩ | ⟨t, ws, ht, hname, hstrict, rfl⟩⟩
  · -- a new name: the tensor at the end is read
    generalize hid : (⟨g.tensors.length⟩ : TensorId) = id
    have hlast : (g.adding (.fresh d.name (some index.toInt.toNat) layout constant id)).tensors[
        id.index]? = some (.fresh d.name (some index.toInt.toNat) layout constant id) := by
      simp [← hid, adding]
    refine Step.Ends.bind
      (R := fun _ g'' => ∃ type, s.Reads d type ∧
        g'' = g.adding (.declared s index.toInt.toNat d type layout id))
      (Step.Ends.onEntry hlast
        (Tensor.parse_fresh (Source.Subgraph.tensor_ofNat_toNat hd)) ?_) ?_
    · rintro _ _ ⟨type, hr, rfl⟩
      exact ⟨type, hr, by simp [← hid, adding, Tensor.fresh, Tensor.declared]⟩
    · rintro _ _ ⟨type, hr, rfl⟩
      rw [← hid]
      exact requested_declared h hg layout _ hd hr hnew
  · -- a registered name: the tensor was read before
    have hparsed : t.status = .parsed := h.status (t := t.bare) (mem_bares ht)
    have hsame : g.tensors.set id.index t = g.tensors := by
      obtain ⟨hlt, rfl⟩ := List.getElem?_eq_some_iff.mp ht
      exact List.set_getElem_self hlt
    rw [Step.run_bind_of_ok (run_onTensor (g := { g with warnings := ws }) ht
      (Tensor.parse_of_isParsed (by rw [hparsed]; rfl)))]
    refine ⟨d, [], g.byName, ws, hd, by simp [hsame], ?_, ?_, by simp, ?_⟩
    · exact hg.of_names (by rw [hsame]) rfl
    · simp [nameOf?, hsame, ht, hname]
    · have := h.hit (mem_bares ht) hstrict
      simpa [bares, hsame, hname] using this

/-- The vector of a declared shape is registered under its own name. -/
theorem vector_run (h : Registry s requests shapes g.bares) (hg : g.Named)
    {decl : Source.OperatorDecl} {newShape : List Int32} {owner : String}
    (hdecl : decl ∈ s.subgraph.operators) (hoptions : decl.options = .reshape newShape)
    (howner : s.nameIn? decl.outputs 0 = some owner) :
    ∃ id ts names, vector owner (newShape.map Int32.toInt) g =
        .ok id { g with tensors := g.tensors ++ ts, byName := names } ∧
      Named { g with tensors := g.tensors ++ ts, byName := names } ∧
      nameOf? { g with tensors := g.tensors ++ ts, byName := names } id =
        some (synthesizedName "Vector" owner) ∧
      (∀ t ∈ ts, t.bare = t ∧ t.sourceIndex = none) ∧
      Registry s (requests ++ [(synthesizedName "Vector" owner, none)]) shapes
        (bares { g with tensors := g.tensors ++ ts, byName := names }) := by
  have horigin : Origin s (constant (synthesizedName "Vector" owner) [newShape.length]
      (.ofInts .int64 (newShape.map Int32.toInt)) ⟨g.tensors.length⟩) :=
    .vector hdecl hoptions howner
  rw [vector, registered, Step.run_bind_of_ok (Step.run_get g)]
  cases hlookup : g.lookup? (synthesizedName "Vector" owner) with
  | some id =>
      obtain ⟨t, ht, hname⟩ := lookup?_eq_some hg hlookup
      refine ⟨id, [], g.byName, by rw [List.append_nil]; rfl, hg.of_names (by simp) rfl,
        by simp [nameOf?, ht, hname], by simp, ?_⟩
      rw [List.append_nil, ← hname]
      exact h.hit (mem_bares ht) fun _ _ hl => by cases hl
  | none =>
      let v := constant (synthesizedName "Vector" owner) [newShape.length]
        (.ofInts .int64 (newShape.map Int32.toInt))
      have hrun : addTensor (synthesizedName "Vector" owner) v g =
          .ok ⟨g.tensors.length⟩ (g.adding (v ⟨g.tensors.length⟩)) := run_addTensor rfl
      refine ⟨⟨g.tensors.length⟩, [v ⟨g.tensors.length⟩], _, by rw [List.length_map]; exact hrun,
        hg.adding hlookup, nameOf?_of_getElem? (t := v _) List.getElem?_concat_length, ?_, ?_⟩
      · intro t ht
        obtain rfl := List.mem_singleton.mp ht
        exact ⟨rfl, rfl⟩
      · rw [bares, List.map_append, List.map_singleton, horigin.bare]
        refine h.add horigin fun t ht => ?_
        obtain ⟨u, hu, rfl⟩ := List.mem_map.mp ht
        exact (lookup?_eq_none hg).mp hlookup u hu

/-- A shape operand is normalized. -/
theorem normalizeShape_run {id : TensorId} {t : Tensor} (ht : g.tensors[id.index]? = some t)
    (htype : t.elementType.isSome) :
    ∃ ws, normalizeShape id g =
      .ok () { g with tensors := g.tensors.modify id.index Tensor.asShape, warnings := ws } := by
  have hlt := (List.getElem?_eq_some_iff.mp ht).1
  have hc : (g.tensors.modify id.index (Tensor.coerced · .int64))[id.index]? =
      some (t.coerced .int64) := by
    rw [List.getElem?_modify_eq, ht]
    rfl
  unfold normalizeShape
  rw [Step.run_bind_of_ok (run_updateTensor (f := (Tensor.coerced · .int64)) ht
      (Tensor.coerceType_eq_coerced htype .int64)),
    Step.run_bind_of_ok (run_tensor hc)]
  -- both sides set the entry; they differ in what the shape becomes
  have hset : ∀ u, (g.tensors.modify id.index (Tensor.coerced · .int64)).set id.index u =
      g.tensors.set id.index u := fun u => by rw [modify_eq_set ht, List.set_set]
  have hshape := modify_eq_set ht Tensor.asShape
  by_cases hrank : 1 < t.rank
  · rw [if_pos (show 1 < (t.coerced .int64).rank from hrank), Step.run_bind_of_ok (run_warn _ _)]
    by_cases hinit : t.isInitializer = true
    · rw [if_pos (show (t.coerced .int64).isInitializer = true from hinit),
        run_changeTensor (by simpa using hlt), hshape]
      dsimp only
      rw [modify_eq_set hc, hset, Tensor.asShape, if_pos ⟨hinit, hrank⟩]
      exact ⟨_, rfl⟩
    · rw [if_neg (show ¬(t.coerced .int64).isInitializer = true from hinit), hshape,
        modify_eq_set ht, Tensor.asShape, if_neg (fun h => hinit h.1)]
      exact ⟨_, rfl⟩
  · rw [if_neg (show ¬1 < (t.coerced .int64).rank from hrank), hshape, modify_eq_set ht,
      Tensor.asShape, if_neg (fun h => hrank h.2)]
    exact ⟨g.warnings, rfl⟩

end Relayout.Graph
