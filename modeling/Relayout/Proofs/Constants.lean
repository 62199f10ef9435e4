/-
# Constants

Shape, element type, data and the flag of a constant are four fields of a
tensor, and different steps write them: reading, normalizing a shape operand,
moving, splicing.  `Tensor.Coherent` says how the four fit.  It holds of every
tensor of a graph that was read and of every one of the graph it is adapted to,
so a tensor that has a name is always written.

Nothing is assumed of the names but that none is reserved: several tensors may
share one, and a source tensor that takes the name of a splice is the one thing
that could bring data where the splice has none.
-/
import Relayout.Proofs.Decoding
import Relayout.Proofs.TargetForm
import Relayout.Proofs.WellFormed

namespace Relayout

open Relayout.Graph

variable {s : Scope} {t u : Tensor} {l : Layout}

/-- A tensor was read, and its fields fit. -/
structure Tensor.Coherent (t : Tensor) : Prop where
  parsed : t.status.isParsed = true
  typed : t.elementType.isSome = true
  /-- Constants have data, and nothing else has. -/
  constant : t.isInitializer = t.data.isSome
  /-- Data have the type of the tensor, and fill its shape. -/
  data : ∀ b, t.data = some b → t.elementType = some b.elementType ∧ b.length = t.elementCount

/-- The extents of a tensor are numbers that a dimension can hold. -/
def Tensor.Measured (t : Tensor) : Prop := ∀ d ∈ t.shape, d < 2 ^ 63

/-- The lists of a source are no longer than 63 bits can count, the buffers
among them. -/
structure Scope.Storable (s : Scope) : Prop where
  subgraph : s.subgraph.Storable
  buffers : ∀ bytes ∈ s.model.buffers, bytes.length < 2 ^ 63

/-! ## What becomes of a tensor -/

namespace Tensor.Coherent

theorem filled (h : t.Coherent) : t.Filled := fun b hb => (h.data b hb).2

/-- Edges do not matter. -/
theorem of_bare (h : t.Coherent) (hbare : u.bare = t.bare) : u.Coherent := by
  have ht : t.bare.Coherent := ⟨h.parsed, h.typed, h.constant, h.data⟩
  rw [← hbare] at ht
  exact ⟨ht.parsed, ht.typed, ht.constant, ht.data⟩

theorem asShape (h : t.Coherent) : t.asShape.Coherent where
  parsed := h.parsed
  typed := rfl
  constant := by simpa [Tensor.asShape, coerced] using h.constant
  data := fun b hb => by
    refine ⟨?_, h.filled.asShape b hb⟩
    obtain ⟨b', -, rfl⟩ := Option.map_eq_some_iff.mp hb
    rw [asShape_elementType, Buffer.elementType_cast]

theorem moved (h : t.Coherent) (hm : t.Movable) : t.moved.Coherent := by
  refine moved_cases t h ⟨rfl, h.typed, h.constant, h.data⟩ fun l hl hmatch => ?_
  have hrank : t.rank = l.rank := (hm l hl).resolve_left (by simp [hmatch])
  refine ⟨rfl, h.typed, by simpa using h.constant, fun b hb =>
    ⟨?_, filled_of_transposed h.filled hrank b hb⟩⟩
  obtain ⟨b', hb', rfl⟩ := Option.map_eq_some_iff.mp hb
  exact (h.data b' hb').1

/-- The other form of a tensor has no data, whatever the tensor has. -/
theorem spliced (h : t.Coherent) (role : String) (id : TensorId) :
    (t.spliced role l id).Coherent where
  parsed := rfl
  typed := by
    change t.moved.elementType.isSome = true
    rw [moved_elementType]
    exact h.typed
  constant := rfl
  data := fun _ hb => by cases hb

end Tensor.Coherent

namespace Tensor.Measured

theorem moved (h : t.Measured) : t.moved.Measured :=
  moved_cases t h h fun _ _ _ => Writable.permutedDims_lt h

theorem spliced (h : t.Measured) (role : String) (id : TensorId) :
    (t.spliced role l id).Measured :=
  Writable.permutedDims_lt h.moved

/-- A flattened constant has one extent, the number of its elements. -/
theorem asShape (h : t.Measured) (hcoherent : t.Coherent)
    (hdata : ∀ b, t.data = some b → b.length < 2 ^ 63) : t.asShape.Measured := by
  by_cases hflat : t.isInitializer ∧ 1 < t.rank
  · have hsome : t.data.isSome = true := hcoherent.constant ▸ hflat.1
    obtain ⟨b, hb⟩ := Option.isSome_iff_exists.mp hsome
    intro d hd
    rw [Tensor.asShape, if_pos hflat] at hd
    rw [List.mem_singleton.mp hd, ← (hcoherent.data b hb).2]
    exact hdata b hb
  · rw [Measured, Tensor.asShape, if_neg hflat]
    exact h

end Tensor.Measured

/-! ## Where tensors come from -/

/-- An element takes a byte at least. -/
theorem Buffer.length_le_of_ofBytes? {type : ElementType} {bytes : List UInt8} {b : Buffer}
    (h : Buffer.ofBytes? type bytes = some b) : b.length ≤ bytes.length := by
  unfold ofBytes? at h
  split at h
  · cases h
    rw [length, List.length_map, Bytes.length_pieces]
    exact Nat.div_le_self _ _
  · cases h

theorem Scope.length_constant?_lt (hs : s.Storable) {d : Source.TensorDecl} {b : Buffer}
    (h : s.constant? d = some b) : b.length < 2 ^ 63 := by
  unfold constant? at h
  split at h
  · rename_i bytes type hbytes _
    split at h
    · cases h
    · have hmem : bytes ∈ s.model.buffers := by
        unfold Source.Model.bufferData at hbytes
        split at hbytes
        · rename_i hat
          cases hbytes
          exact List.mem_of_getElem? hat
        · cases hbytes
      exact Nat.lt_of_le_of_lt (Buffer.length_le_of_ofBytes? h) (hs.buffers bytes hmem)
  · cases h

namespace Origin

theorem coherent (h : Origin s t) : t.Coherent where
  parsed := by rw [h.status]; rfl
  typed := h.elementType_isSome
  constant := h.isInitializer_eq
  data := fun b hb => by
    refine ⟨?_, h.filled b hb⟩
    cases h with
    | source layout hd hr => exact congrArg some (Scope.constant?_elementType hr.converted hb).symm
    | vector hdecl hoptions howner =>
        cases hb
        rfl

theorem measured (h : Origin s t) (hs : s.Storable) : t.Measured := by
  cases h with
  | source layout hd hr => exact Scope.WellFormed.extents_lt _
  | vector hdecl hoptions howner =>
      intro d hd
      rw [List.mem_singleton.mp hd]
      exact hs.subgraph.newShapes _ hdecl _ hoptions

theorem length_data_lt (h : Origin s t) (hs : s.Storable) {b : Buffer} (hb : t.data = some b) :
    b.length < 2 ^ 63 := by
  cases h with
  | source layout hd hr => exact Scope.length_constant?_lt hs hb
  | vector hdecl hoptions howner =>
      cases hb
      rw [Buffer.length, Buffer.ofInts, List.length_map, List.length_map]
      exact hs.subgraph.newShapes _ hdecl _ hoptions

end Origin

namespace Graph

variable {g k : Graph} {layouts : SortedMap ExplicitLayout}

/-- Every tensor that was read is coherent. -/
theorem Intake.coherent (h : Intake s layouts g) (ht : t ∈ g.tensors) : t.Coherent := by
  obtain ⟨b, hb, heq⟩ := h.taken.registry.entry t.bare (List.mem_map_of_mem ht)
  have hbare : t.bare.Coherent := by
    rw [heq]
    split
    · exact hb.coherent.asShape
    · exact hb.coherent
  exact hbare.of_bare rfl

theorem Intake.measured (h : Intake s layouts g) (hs : s.Storable) (ht : t ∈ g.tensors) :
    t.Measured := by
  obtain ⟨b, hb, heq⟩ := h.taken.registry.entry t.bare (List.mem_map_of_mem ht)
  change t.bare.Measured
  rw [heq]
  split
  · exact (hb.measured hs).asShape hb.coherent fun _ => hb.length_data_lt hs
  · exact hb.measured hs

/-- Every tensor of the adapted graph is one that was read, moved, or the other
form of one. -/
theorem Intake.adapted_coherent (h : Intake s layouts g) (hnames : s.Unreserved)
    (hclash : ¬g.Clash) (hu : u ∈ g.adapted.tensors) : u.Coherent := by
  obtain ⟨t, ht, hbare⟩ | ⟨role, x, l, hx, hbare, -⟩ :=
    (h.populated (h.vacant hnames) hclash).cases hu
  · have hmoved := (h.coherent ht).moved (movable_of_not_clash hclash t ht)
    exact hmoved.of_bare (hbare.trans (Tensor.bare_moved t).symm)
  · exact ((h.coherent hx).spliced role u.id).of_bare hbare

theorem Intake.adapted_measured (h : Intake s layouts g) (hnames : s.Unreserved)
    (hs : s.Storable) (hclash : ¬g.Clash) (hu : u ∈ g.adapted.tensors) : u.Measured := by
  change u.bare.Measured
  obtain ⟨t, ht, hbare⟩ | ⟨role, x, l, hx, hbare, -⟩ :=
    (h.populated (h.vacant hnames) hclash).cases hu
  · have hm : t.bare.Measured := h.measured hs (t := t) ht
    rw [hbare]
    exact hm.moved
  · rw [hbare]
    exact (h.measured hs hx).spliced role u.id

end Graph

/-! ## Writing tensors -/

/-- What is said of a tensor without a name. -/
def unnamedTensor : ConversionError := .validation "<unnamed>" .noTensorName

namespace Tensor.Coherent

/-- A coherent tensor passes the check, unless it has no name. -/
theorem checkTensor (h : t.Coherent) (hm : t.Measured) :
    Target.checkTensor t.node = if t.name = "" then .error unnamedTensor else .ok () := by
  by_cases hname : t.name = ""
  · rw [if_pos hname]
    exact if_pos hname
  · rw [if_neg hname]
    exact Writable.checkTensor ⟨hname, hm, fun b hb => (h.data b hb).1, h.filled⟩

theorem rendered (h : t.Coherent) (hm : t.Measured) :
    t.rendered = if t.name = "" then .error unnamedTensor else .ok t.node := by
  rw [rendered_of_settled h.constant, h.checkTensor hm]
  split <;> rfl

theorem convert (h : t.Coherent) (hm : t.Measured) :
    Tensor.convert t =
      if t.name = "" then .error (.input unnamedTensor) t else .ok t.node t.settled := by
  rw [Tensor.convert_run h.parsed h.typed, h.rendered hm]
  by_cases hname : t.name = ""
  · rw [if_pos hname, if_pos hname]
  · rw [if_neg hname, if_neg hname]

end Tensor.Coherent

namespace Graph

variable {g k : Graph} {layouts : SortedMap ExplicitLayout}

/-- Nothing but a missing name keeps a tensor of the graph from being written. -/
structure Writes (k : Graph) : Prop where
  /-- A tensor is written at any stage behind reading. -/
  convert : ∀ t ∈ k.tensors, ∀ stage : Status, stage.isParsed = true →
    Tensor.convert { t with status := stage } =
      if t.name = "" then .error (.input unnamedTensor) { t with status := stage }
      else .ok t.node t.settled
  /-- What else the emission of the graph can fail at are the checks of a node
  and of the graph. -/
  emission : ∀ name e k', Graph.convert name k = .error e k' →
    (e = .input unnamedTensor ∧ ∃ t ∈ k.tensors, t.name = "") ∨
      (∃ o ∈ k.ops, ∃ err, Target.checkNode (k.nodeOf o) = .error err ∧ e = .input err) ∨
        ∃ target err, Target.checkGraph target = .error err ∧ e = .input err

theorem rendered_eq_error (h : t.Coherent) (hm : t.Measured) {e : ConversionError}
    (he : t.rendered = .error e) : e = unnamedTensor ∧ t.name = "" := by
  rw [h.rendered hm] at he
  split at he
  · cases he
    exact ⟨rfl, ‹_›⟩
  · cases he

theorem mem_of_mem_located {ids : List TensorId} {e : TensorId × Tensor}
    (h : e ∈ ids.filterMap k.located?) : e.2 ∈ k.tensors := by
  obtain ⟨id, -, hentry⟩ := List.mem_filterMap.mp h
  exact List.mem_of_getElem? (mem_of_located? hentry).2

theorem rendering_eq_error (htensors : ∀ t ∈ k.tensors, t.Coherent ∧ t.Measured) {name : String}
    {order : List OpId} {e : ConversionError} (h : k.rendering name order = .error e) :
    (e = unnamedTensor ∧ ∃ t ∈ k.tensors, t.name = "") ∨
      (∃ o ∈ k.ops, Target.checkNode (k.nodeOf o) = .error e) ∨
        ∃ target, Target.checkGraph target = .error e := by
  have hunnamed : ∀ t ∈ k.tensors, t.rendered = .error e →
      e = unnamedTensor ∧ ∃ t ∈ k.tensors, t.name = "" := fun t ht he => by
    obtain ⟨he, hname⟩ := rendered_eq_error (htensors t ht).1 (htensors t ht).2 he
    exact ⟨he, t, ht, hname⟩
  rcases bind_eq_error.mp h with hnodes | ⟨nodes, -, h⟩
  · obtain ⟨o, ho, hnode⟩ := exists_of_mapM_eq_error hnodes
    obtain ⟨id, -, hat⟩ := List.mem_filterMap.mp ho
    obtain hcheck | ⟨_, -, hpure⟩ := bind_eq_error.mp hnode
    · exact Or.inr (Or.inl ⟨o, List.mem_of_getElem? hat, hcheck⟩)
    · cases hpure
  rcases bind_eq_error.mp h with hmentioned | ⟨tensors, -, h⟩
  · obtain ⟨entry, hentry, hrole⟩ := exists_of_mapM_eq_error hmentioned
    obtain hrendered | ⟨_, -, hpure⟩ := bind_eq_error.mp hrole
    · exact Or.inl (hunnamed _ (mem_of_mem_located hentry) hrendered)
    · cases hpure
  rcases bind_eq_error.mp h with houtputs | ⟨outputs, -, h⟩
  · obtain ⟨entry, hentry, hrendered⟩ := exists_of_mapM_eq_error houtputs
    exact Or.inl (hunnamed _ (mem_of_mem_located hentry) hrendered)
  obtain hcheck | ⟨_, -, hpure⟩ := bind_eq_error.mp h
  · exact Or.inr (Or.inr ⟨_, hcheck⟩)
  · cases hpure

/-- A sound graph is written as far as its tensors can be. -/
theorem Sound.writes (h : k.Sound) (htensors : ∀ t ∈ k.tensors, t.Coherent)
    (hmeasured : ∀ t ∈ k.tensors, t.Measured) : k.Writes where
  convert := fun t ht stage hstage =>
    have hcoherent : ({ t with status := stage } : Tensor).Coherent :=
      ⟨hstage, (htensors t ht).typed, (htensors t ht).constant, (htensors t ht).data⟩
    hcoherent.convert (hmeasured t ht)
  emission := fun name e k' hrun => by
    obtain ⟨order, -, hdenotes⟩ := h.convert_denotes name
    cases hr : k.rendering name order with
    | ok graph =>
        rw [hr] at hdenotes
        obtain ⟨g', hok⟩ := hdenotes
        rw [hok] at hrun
        cases hrun
    | error err =>
        rw [hr] at hdenotes
        obtain ⟨g', herror⟩ := hdenotes
        rw [herror] at hrun
        cases hrun
        rcases rendering_eq_error (fun t ht => ⟨htensors t ht, hmeasured t ht⟩) hr with
          ⟨rfl, hname⟩ | ⟨o, ho, hcheck⟩ | ⟨target, hcheck⟩
        · exact Or.inl ⟨rfl, hname⟩
        · exact Or.inr (Or.inl ⟨o, ho, err, hcheck, rfl⟩)
        · exact Or.inr (Or.inr ⟨target, err, hcheck, rfl⟩)

/-- Constants are well-formed at every stage: in the graph that a source is read
into, and in the one that this is adapted to. -/
theorem constants_wellFormed (hnames : s.Unreserved) (h : IsIntake s layouts g) :
    ((∀ t ∈ g.tensors, t.Coherent) ∧ (s.Storable → g.Writes)) ∧
      ∀ g', transform g = .ok () g' →
        (∀ t ∈ g'.tensors, t.Coherent) ∧ (s.Storable → g'.Writes) := by
  have hintake := h.intake
  refine ⟨⟨fun _ => hintake.coherent, fun hs =>
    hintake.sound.writes (fun _ => hintake.coherent) fun _ => hintake.measured hs⟩,
    fun g' hrun => ?_⟩
  have hends := hintake.transform_ends
  rw [hrun] at hends
  obtain ⟨hclash, rfl⟩ := hends
  have hcoherent : ∀ t ∈ g.adapted.tensors, t.Coherent := fun _ =>
    hintake.adapted_coherent hnames hclash
  exact ⟨hcoherent, fun hs => (hintake.adapted_sound hclash).writes hcoherent fun _ =>
    hintake.adapted_measured hnames hs hclash⟩

open Conversion in
theorem constants_wellFormed_shared :
    ∃ g g', IsIntake (scopeOf sharedModel sharedSubgraph sharedOptions)
        sharedOptions.explicitLayouts g ∧ transform g = .ok () g' ∧
      (∃ t ∈ g'.tensors, t.isInitializer = true ∧ t.status = .transformed) ∧
      (∀ t ∈ g.tensors, t.Coherent) ∧ g.Writes ∧ (∀ t ∈ g'.tensors, t.Coherent) ∧ g'.Writes := by
  obtain ⟨g, g', hg, hrun, hseen⟩ := exists_of_adaptedIntake?
    (scopeOf sharedModel sharedSubgraph sharedOptions) sharedOptions.explicitLayouts
    (fun r => r.2.tensors.any fun t => t.isInitializer && decide (t.status = .transformed))
    (by decide +kernel)
  have hs : (scopeOf sharedModel sharedSubgraph sharedOptions).Storable :=
    ⟨sharedSubgraph_storable, by decide⟩
  obtain ⟨⟨hcoherent, hwrites⟩, hadapted⟩ := constants_wellFormed sharedModel_unreserved hg
  obtain ⟨hcoherent', hwrites'⟩ := hadapted g' hrun
  exact ⟨g, g', hg, hrun, by simpa using hseen, hcoherent, hwrites hs, hcoherent', hwrites' hs⟩

end Graph

end Relayout
