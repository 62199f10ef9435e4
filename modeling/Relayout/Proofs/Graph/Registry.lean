/-
# What the registry holds

`Registry s requests shapes ts` says of the tensors `ts`, seen without their
edges, that they are what the requests made so far call for: one tensor per
requested name, with the layout of the first request, as it was declared or
synthesized, and normalized if a shape is read from it.  A strict scope has
moreover turned down every request for another layout.  The lemmas that follow
say what one request does, for a name that is registered and for a new one.
-/
import Relayout.Proofs.Calls
import Relayout.Proofs.Graph.Edit
import Relayout.Proofs.Tensor

namespace Relayout

/-- A tensor as it was first registered. -/
inductive Origin (s : Scope) : Tensor → Prop where
  | source {k : Nat} {d : Source.TensorDecl} {type : ElementType} {id : TensorId}
      (layout : Option Layout) (hd : s.subgraph.tensors[k]? = some d) (hr : s.Reads d type) :
      Origin s (.declared s k d type layout id)
  | vector {decl : Source.OperatorDecl} {newShape : List Int32} {owner : String} {id : TensorId}
      (hdecl : decl ∈ s.subgraph.operators) (hoptions : decl.options = .reshape newShape)
      (howner : s.nameIn? decl.outputs 0 = some owner) :
      Origin s (Graph.constant (synthesizedName "Vector" owner) [newShape.length]
        (.ofInts .int64 (newShape.map Int32.toInt)) id)

namespace Origin

variable {s : Scope} {t : Tensor}

theorem status (h : Origin s t) : t.status = .parsed := by cases h <;> rfl

theorem elementType_isSome (h : Origin s t) : t.elementType.isSome := by cases h <;> rfl

theorem isInitializer_eq (h : Origin s t) : t.isInitializer = t.data.isSome := by cases h <;> rfl

theorem bare (h : Origin s t) : t.bare = t := by cases h <;> rfl

theorem filled (h : Origin s t) : t.Filled := by
  cases h with
  | source layout hd hr => exact Tensor.filled_declared hr
  | vector hdecl hoptions howner =>
      rintro b ⟨⟩
      simp [Buffer.length, Buffer.ofInts, Graph.constant, Tensor.elementCount]

end Origin

/-- The tensors that requests call for, without their edges. -/
structure Registry (s : Scope) (requests : List Request) (shapes : List String)
    (ts : List Tensor) : Prop where
  named : (ts.map Tensor.name).Nodup
  /-- Every tensor is as it was first registered, or a shape operand made of it. -/
  entry : ∀ t ∈ ts, ∃ b, Origin s b ∧ t = if t.name ∈ shapes then b.asShape else b
  /-- The first request decides the layout. -/
  first : ∀ t ∈ ts, requests.lookup t.name = some t.layout
  /-- What was requested is there, in strict scopes with every requested layout. -/
  known : ∀ r ∈ requests, ∃ t ∈ ts, t.name = r.1 ∧
    (s.strict = true → ∀ l, r.2 = some l → t.layout = some l)
  shapes_known : ∀ name ∈ shapes, ∃ t ∈ ts, t.name = name

/-- A source tensor that has a layout was declared with its rank. -/
def Tensor.Ranked (s : Scope) (t : Tensor) : Prop :=
  ∀ k d l, t.sourceIndex = some k → s.subgraph.tensors[k]? = some d → t.layout = some l →
    d.shape.length = l.rank

namespace Registry

variable {s : Scope} {requests : List Request} {shapes : List String} {ts : List Tensor}

theorem empty : Registry s [] [] [] where
  named := List.nodup_nil
  entry := by simp
  first := by simp
  known := by simp
  shapes_known := by simp

section Entry

variable (h : Registry s requests shapes ts) {t : Tensor} (ht : t ∈ ts)

include h ht

theorem status : t.status = .parsed := by
  obtain ⟨b, hb, heq⟩ := h.entry t ht
  rw [heq]
  split <;> exact hb.status

theorem elementType_isSome : t.elementType.isSome := by
  obtain ⟨b, hb, heq⟩ := h.entry t ht
  rw [heq]
  split
  · rfl
  · exact hb.elementType_isSome

theorem isInitializer_eq : t.isInitializer = t.data.isSome := by
  obtain ⟨b, hb, heq⟩ := h.entry t ht
  rw [heq]
  split
  · simp [Tensor.asShape, Tensor.coerced, hb.isInitializer_eq]
  · exact hb.isInitializer_eq

theorem filled : t.Filled := by
  obtain ⟨b, hb, heq⟩ := h.entry t ht
  rw [heq]
  split
  · exact hb.filled.asShape
  · exact hb.filled

end Entry

/-! ## Requests -/

/-- A request for a registered name changes nothing. -/
theorem hit (h : Registry s requests shapes ts) {t : Tensor} (ht : t ∈ ts)
    {layout : Option Layout} (hl : s.strict = true → ∀ l, layout = some l → t.layout = some l) :
    Registry s (requests ++ [(t.name, layout)]) shapes ts where
  named := h.named
  entry := h.entry
  first := fun u hu => by rw [List.lookup_append, h.first u hu, Option.some_or]
  known := by
    intro r hr
    rcases List.mem_append.mp hr with hr | hr
    · exact h.known r hr
    · obtain rfl := List.mem_singleton.mp hr
      exact ⟨t, ht, rfl, hl⟩
  shapes_known := h.shapes_known

/-- A request for a new name adds a tensor. -/
theorem add (h : Registry s requests shapes ts) {b : Tensor} (hb : Origin s b)
    (hnew : ∀ t ∈ ts, t.name ≠ b.name) :
    Registry s (requests ++ [(b.name, b.layout)]) shapes (ts ++ [b]) where
  named := by
    rw [List.map_append, List.map_singleton]
    refine List.nodup_append.mpr ⟨h.named, by simp, ?_⟩
    intro name hname name' hname' heq
    obtain ⟨t, ht, rfl⟩ := List.mem_map.mp hname
    rw [List.mem_singleton.mp hname'] at heq
    exact hnew t ht heq
  entry := by
    intro t ht
    rcases List.mem_append.mp ht with ht | ht
    · exact h.entry t ht
    · obtain rfl := List.mem_singleton.mp ht
      have hshape : t.name ∉ shapes := fun hmem => by
        obtain ⟨u, hu, hname⟩ := h.shapes_known _ hmem
        exact hnew u hu hname
      exact ⟨t, hb, by rw [if_neg hshape]⟩
  first := by
    intro t ht
    rw [List.lookup_append]
    rcases List.mem_append.mp ht with ht | ht
    · rw [h.first t ht, Option.some_or]
    · obtain rfl := List.mem_singleton.mp ht
      have hnone : requests.lookup t.name = none := by
        refine List.lookup_eq_none_iff.mpr fun r hr => ?_
        obtain ⟨u, hu, hname, -⟩ := h.known r hr
        simpa [← hname] using (hnew u hu).symm
      rw [hnone, Option.none_or]
      simp
  known := by
    intro r hr
    rcases List.mem_append.mp hr with hr | hr
    · obtain ⟨t, ht, hname⟩ := h.known r hr
      exact ⟨t, List.mem_append_left _ ht, hname⟩
    · obtain rfl := List.mem_singleton.mp hr
      exact ⟨b, by simp, rfl, fun _ _ hl => hl⟩
  shapes_known := by
    intro name hname
    obtain ⟨t, ht, hn⟩ := h.shapes_known name hname
    exact ⟨t, List.mem_append_left _ ht, hn⟩

/-- Where an entry comes from once a shape was normalized. -/
theorem origin_modify (h : Registry s requests shapes ts) {i : Nat} {t u : Tensor}
    (ht : ts[i]? = some t) (hu : u ∈ ts.modify i Tensor.asShape) :
    ∃ v ∈ ts, u.name = v.name ∧ u.layout = v.layout ∧
      u = if v.name = t.name then v.asShape else v := by
  obtain ⟨j, hj⟩ := List.getElem?_of_mem hu
  rw [List.getElem?_modify] at hj
  obtain ⟨v, hv, rfl⟩ := Option.map_eq_some_iff.mp hj
  refine ⟨v, List.mem_of_getElem? hv, ?_⟩
  by_cases hij : i = j
  · subst hij
    rw [ht] at hv
    cases hv
    simp
  · have hne : v.name ≠ t.name := fun heq =>
      hij (position_eq_of_name h.named ht hv heq.symm)
    simp [hij, hne]

/-- What becomes of an entry when a shape is normalized. -/
theorem exists_modify {i : Nat} {v : Tensor} (hv : v ∈ ts) :
    ∃ u ∈ ts.modify i Tensor.asShape, u.name = v.name ∧ u.layout = v.layout := by
  obtain ⟨j, hj⟩ := List.getElem?_of_mem hv
  have hj' : (ts.modify i Tensor.asShape)[j]? = some (if i = j then v.asShape else v) := by
    rw [List.getElem?_modify, hj]
    split <;> rfl
  refine ⟨_, List.mem_of_getElem? hj', ?_⟩
  split <;> exact ⟨rfl, rfl⟩

/-- A tensor that a shape is read from is normalized. -/
theorem shape (h : Registry s requests shapes ts) {i : Nat} {t : Tensor} (ht : ts[i]? = some t) :
    Registry s requests (shapes ++ [t.name]) (ts.modify i Tensor.asShape) where
  named := by
    rw [map_modify_of_eq Tensor.asShape_name ts i]
    exact h.named
  entry := by
    intro u hu
    obtain ⟨v, hv, hun, -, heq⟩ := h.origin_modify ht hu
    obtain ⟨b, hb, hvb⟩ := h.entry v hv
    refine ⟨b, hb, ?_⟩
    rw [hun, heq]
    by_cases hvt : v.name = t.name
    · rw [if_pos hvt, if_pos (by simp [hvt]), hvb]
      split
      · exact b.asShape_asShape
      · rfl
    · rw [if_neg hvt]
      simp only [List.mem_append, List.mem_singleton, hvt, or_false]
      exact hvb
  first := by
    intro u hu
    obtain ⟨v, hv, hun, hul, -⟩ := h.origin_modify ht hu
    rw [hun, hul]
    exact h.first v hv
  known := by
    intro r hr
    obtain ⟨v, hv, hvr, hstrict⟩ := h.known r hr
    obtain ⟨u, hu, hun, hul⟩ := exists_modify (i := i) hv
    exact ⟨u, hu, by rw [hun, hvr], by rw [hul]; exact hstrict⟩
  shapes_known := by
    intro name hn
    rcases List.mem_append.mp hn with hn | hn
    · obtain ⟨v, hv, hvn⟩ := h.shapes_known name hn
      obtain ⟨u, hu, hun, -⟩ := exists_modify (i := i) hv
      exact ⟨u, hu, by rw [hun, hvn]⟩
    · obtain ⟨u, hu, hun, -⟩ := exists_modify (i := i) (List.mem_of_getElem? ht)
      exact ⟨u, hu, by rw [hun, List.mem_singleton.mp hn]⟩

end Registry

end Relayout
