/-
# What happens to a tensor

A tensor of the source is read once (`Tensor.declared` is what comes of it), may
be made a shape operand (`Tensor.asShape`), and is moved once to the target
order of its layout (`Tensor.moved`).  Reading goes part by part: shape and
element type first, and behind them what `Tensor.fill` writes.  The first time it
can fail only because of the input; moving fails exactly if the layout moves
something and has another rank than the tensor.
-/
import Relayout.Proofs.Declaration
import Relayout.Proofs.Layout.Transpose
import Relayout.Proofs.Step
import Relayout.Tensor

namespace Relayout

@[simp] theorem mem_attach {op o : OpId} {edges : List OpId} :
    o ∈ attach op edges ↔ o ∈ edges ∨ o = op := by
  unfold attach
  split
  · rename_i h
    exact ⟨Or.inl, fun ho => ho.elim id fun ho => ho ▸ h⟩
  · simp

theorem nodup_attach {op : OpId} {edges : List OpId} (h : edges.Nodup) :
    (attach op edges).Nodup := by
  unfold attach
  split
  · exact h
  · rename_i hn
    exact List.nodup_append.mpr ⟨h, by simp, fun a ha b hb hab => by
      rw [List.mem_singleton.mp hb] at hab
      exact hn (hab ▸ ha)⟩

namespace Status

theorem advance_of_le {current next : Status} (h : current.stage ≤ next.stage) :
    current.advance next = .ok next := if_pos h

theorem stage_le_converted (s : Status) : s.stage ≤ Status.converted.stage := by
  cases s <;> decide

end Status

namespace Tensor

/-! ## Stages of a tensor -/

/-- A tensor without its edges. -/
def bare (t : Tensor) : Tensor := { t with producers := [], consumers := [] }

@[simp] theorem bare_id (t : Tensor) : t.bare.id = t.id := rfl
@[simp] theorem bare_name (t : Tensor) : t.bare.name = t.name := rfl
@[simp] theorem bare_sourceIndex (t : Tensor) : t.bare.sourceIndex = t.sourceIndex := rfl
@[simp] theorem bare_shape (t : Tensor) : t.bare.shape = t.shape := rfl
@[simp] theorem bare_elementType (t : Tensor) : t.bare.elementType = t.elementType := rfl
@[simp] theorem bare_isInitializer (t : Tensor) : t.bare.isInitializer = t.isInitializer := rfl
@[simp] theorem bare_data (t : Tensor) : t.bare.data = t.data := rfl
@[simp] theorem bare_layout (t : Tensor) : t.bare.layout = t.layout := rfl
@[simp] theorem bare_status (t : Tensor) : t.bare.status = t.status := rfl

/-- The quantization that a tensor takes over from its declaration. -/
def declaredScale (d : Source.TensorDecl) : BitVec 32 × Int64 :=
  match d.quantization with
  | some ⟨[scale], [zeroPoint]⟩ => (scale, zeroPoint)
  | _ => (defaultScale, defaultZeroPoint)

/-- A source tensor, read. -/
def declared (s : Scope) (k : Nat) (d : Source.TensorDecl) (type : ElementType)
    (layout : Option Layout) (id : TensorId) : Tensor where
  id := id
  name := d.name
  sourceIndex := some k
  shape := d.extents
  elementType := some type
  isInitializer := (s.constant? d).isSome
  data := s.constant? d
  scale := (declaredScale d).1
  zeroPoint := (declaredScale d).2
  layout := layout
  producers := []
  consumers := []
  status := .parsed

/-- A tensor of another type, its data cast along. -/
def coerced (t : Tensor) (type : ElementType) : Tensor :=
  { t with elementType := some type, data := t.data.map fun b => b.cast type }

/-- A tensor as a shape operand: 64-bit elements, and a constant of higher rank
flattened. -/
def asShape (t : Tensor) : Tensor :=
  { t.coerced .int64 with
    shape := if t.isInitializer ∧ 1 < t.rank then [t.elementCount] else t.shape }

/-- The data of a tensor fill its shape. -/
def Filled (t : Tensor) : Prop := ∀ b, t.data = some b → b.length = t.elementCount

end Tensor

namespace Buffer

/-- A buffer transposed. -/
def transposed (perm dims : List Nat) (b : Buffer) : Buffer :=
  ⟨b.elementType, Relayout.transposed perm dims b.elements⟩

@[simp] theorem elementType_transposed (perm dims : List Nat) (b : Buffer) :
    (b.transposed perm dims).elementType = b.elementType := rfl

theorem permute_eq (b : Buffer) {l : Layout} {shape : List Nat} (h : shape.length = l.rank)
    (hb : b.length = elementCount shape) :
    b.permute l shape = .ok (b.transposed l.perm shape) := by
  simp [permute, l.permuteBuffer_eq h hb, transposed, bind, Except.bind, pure, Except.pure]

@[simp] theorem elementType_cast (b : Buffer) (t : ElementType) :
    (b.cast t).elementType = t := by
  unfold cast
  split
  · assumption
  · split <;> rfl

@[simp] theorem length_cast (b : Buffer) (t : ElementType) :
    (b.cast t).length = b.length := by
  unfold cast
  split
  · rfl
  · split
    · rename_i is his
      simp only [toInts?, Option.map_eq_some_iff] at his
      obtain ⟨read, _, rfl⟩ := his
      simp [ofInts, length]
    · simp [ofDoubles, toDoubles, length]

theorem cast_of_elementType {b : Buffer} {t : ElementType} (h : b.elementType = t) :
    b.cast t = b := if_pos h

theorem cast_cast (b : Buffer) (t : ElementType) : (b.cast t).cast t = b.cast t :=
  cast_of_elementType (b.elementType_cast t)

end Buffer

namespace Tensor

/-- A tensor moved to the target order of its layout. -/
def moved (t : Tensor) : Tensor :=
  match t.layout with
  | none => t
  | some l =>
      if l.isMatch then { t with status := .transformed }
      else
        { t with
          shape := permutedDims l.perm t.shape
          data := t.data.map fun b => b.transposed l.perm t.shape
          status := .transformed }

@[simp] theorem asShape_name (t : Tensor) : t.asShape.name = t.name := rfl
@[simp] theorem asShape_sourceIndex (t : Tensor) : t.asShape.sourceIndex = t.sourceIndex := rfl
@[simp] theorem asShape_layout (t : Tensor) : t.asShape.layout = t.layout := rfl
@[simp] theorem asShape_status (t : Tensor) : t.asShape.status = t.status := rfl
@[simp] theorem asShape_isInitializer (t : Tensor) :
    t.asShape.isInitializer = t.isInitializer := rfl
@[simp] theorem asShape_elementType (t : Tensor) : t.asShape.elementType = some .int64 := rfl

/-- A constant has rank one at most as a shape operand. -/
theorem rank_asShape_le {t : Tensor} (h : t.isInitializer = true) : t.asShape.rank ≤ 1 := by
  by_cases hr : 1 < t.rank
  · simp [asShape, rank, h, show 1 < t.shape.length from hr]
  · have hr' : t.asShape.rank = t.rank := by simp [asShape, rank, show ¬1 < t.shape.length from hr]
    omega

/-- Being a shape operand twice is like being one once. -/
theorem asShape_asShape (t : Tensor) : t.asShape.asShape = t.asShape := by
  have hdata : (t.data.map fun b => b.cast .int64).map (fun b => b.cast .int64) =
      t.data.map fun b => b.cast .int64 := by
    simp [Function.comp_def, Buffer.cast_cast]
  have hflat : ¬(t.asShape.isInitializer = true ∧ 1 < t.asShape.rank) := fun h => by
    have := rank_asShape_le (t := t) h.1
    omega
  unfold asShape coerced at hflat ⊢
  simp only [hdata, if_neg hflat]

theorem coerceType_eq_coerced {t : Tensor} (h : t.elementType.isSome) (type : ElementType) :
    t.coerceType type = .ok (t.coerced type) := if_pos h

theorem elementCount_asShape (t : Tensor) : t.asShape.elementCount = t.elementCount := by
  by_cases h : t.isInitializer ∧ 1 < t.rank
  · simp [asShape, h, elementCount]
  · simp [asShape, h, elementCount]

theorem Filled.asShape {t : Tensor} (h : t.Filled) : t.asShape.Filled := by
  intro b hb
  obtain ⟨b', hb', rfl⟩ := Option.map_eq_some_iff.mp hb
  rw [Buffer.length_cast, elementCount_asShape]
  exact h b' hb'

theorem filled_declared {s : Scope} {k : Nat} {d : Source.TensorDecl} {type : ElementType}
    {layout : Option Layout} {id : TensorId} (h : s.Reads d type) :
    (declared s k d type layout id).Filled := h.fills

@[simp] theorem moved_name (t : Tensor) : t.moved.name = t.name := by
  unfold moved; split <;> [rfl; (split <;> rfl)]

@[simp] theorem moved_layout (t : Tensor) : t.moved.layout = t.layout := by
  unfold moved; split <;> [rfl; (split <;> rfl)]

@[simp] theorem isSome_data_moved (t : Tensor) : t.moved.data.isSome = t.data.isSome := by
  unfold moved; split <;> [rfl; (split <;> simp)]

@[simp] theorem moved_elementType (t : Tensor) : t.moved.elementType = t.elementType := by
  unfold moved; split <;> [rfl; (split <;> rfl)]

@[simp] theorem moved_isInitializer (t : Tensor) : t.moved.isInitializer = t.isInitializer := by
  unfold moved; split <;> [rfl; (split <;> rfl)]

@[simp] theorem moved_producers (t : Tensor) : t.moved.producers = t.producers := by
  unfold moved; split <;> [rfl; (split <;> rfl)]

@[simp] theorem moved_consumers (t : Tensor) : t.moved.consumers = t.consumers := by
  unfold moved; split <;> [rfl; (split <;> rfl)]

theorem moved_of_layout_none {t : Tensor} (h : t.layout = none) : t.moved = t := by
  rw [moved, h]

/-! ## The order of reading -/

section Order

variable {s : Scope} {t : Tensor} {k : Nat} {d : Source.TensorDecl} {shape : List Nat}
  {type : ElementType} {e : ConversionError}

/-- What is read once shape and element type are there. -/
def fill (s : Scope) (d : Source.TensorDecl) (type : ElementType) : Step Tensor Unit := do
  parseQuantization d
  parseData s d type
  Step.update setParsed

theorem declaredShape_of_nonneg (h : ∀ n ∈ d.shape, 0 ≤ n.toInt) :
    t.declaredShape d = .ok d.extents := by
  have hnone : (d.shape.find? fun n => decide (n.toInt < 0)) = none :=
    List.find?_eq_none.mpr fun n hn => by simpa using h n hn
  rw [declaredShape, hnone]
  rfl

theorem declaredType_of_converted? (h : d.elementType.converted? = some type) :
    t.declaredType d = .ok type := by
  rw [declaredType, h]

variable (hopen : t.status.isParsed = false) (hk : t.sourceIndex = some k)

include hopen

/-- A tensor without a source cannot be read. -/
theorem parse_of_sourceIndex_none (h : t.sourceIndex = none) :
    parse s t = .error (.invariant (.parsedSynthetic t.name)) t := by
  simp [parse, declaration, Step.run_bind, hopen, h]

include hk

theorem parse_of_declaration_error (h : s.subgraph.tensor (.ofNat k) = .error e) :
    parse s t = .error (.input e) t := by
  simp [parse, declaration, Step.run_bind, hopen, hk, h]

theorem parse_of_shape_error (hd : s.subgraph.tensor (.ofNat k) = .ok d)
    (h : t.declaredShape d = .error e) : parse s t = .error (.input e) t := by
  simp [parse, declaration, Step.run_bind, hopen, hk, hd, h]

theorem parse_of_type_error (hd : s.subgraph.tensor (.ofNat k) = .ok d)
    (hshape : t.declaredShape d = .ok shape) (h : t.declaredType d = .error e) :
    parse s t = .error (.input e) { t with shape := shape } := by
  simp [parse, declaration, Step.run_bind, hopen, hk, hd, hshape, h]

/-- An element type is not assigned again. -/
theorem parse_of_typed (hd : s.subgraph.tensor (.ofNat k) = .ok d)
    (hshape : t.declaredShape d = .ok shape) (htype : t.declaredType d = .ok type)
    (h : t.elementType.isSome = true) :
    parse s t = .error (.invariant (.typedTwice t.name)) { t with shape := shape } := by
  simp [parse, declaration, Step.run_bind, Step.update, assignType, hopen, hk, hd, hshape, htype,
    Option.ne_none_iff_isSome.mpr h]

theorem parse_of_untyped (hd : s.subgraph.tensor (.ofNat k) = .ok d)
    (hshape : t.declaredShape d = .ok shape) (htype : t.declaredType d = .ok type)
    (h : t.elementType = none) :
    parse s t = fill s d type { t with shape := shape, elementType := some type } := by
  simp [parse, fill, declaration, Step.run_bind, Step.update, assignType, hopen, hk, hd, hshape,
    htype, h]

end Order

/-! ## Reading -/

section Reading

variable {s : Scope} {t : Tensor}

/-- A tensor that was read stays as it is. -/
theorem parse_of_isParsed (h : t.status.isParsed = true) : parse s t = .ok () t := by
  simp [parse, Step.run_bind, h]

theorem declaredShape_eq_ok {d : Source.TensorDecl} {shape : List Nat}
    (h : t.declaredShape d = .ok shape) : (∀ n ∈ d.shape, 0 ≤ n.toInt) ∧ shape = d.extents := by
  unfold declaredShape at h
  split at h
  · cases h
  · rename_i hnone
    refine ⟨fun n hn => ?_, by cases h; rfl⟩
    have := List.find?_eq_none.mp hnone n hn
    simpa using this

theorem declaredType_eq_ok {d : Source.TensorDecl} {type : ElementType}
    (h : t.declaredType d = .ok type) : d.elementType.converted? = some type := by
  unfold declaredType at h
  split at h
  · rename_i htype
    cases h
    exact htype
  · cases h

theorem declaredQuantization_eq_ok {d : Source.TensorDecl} {q : Source.Quantization}
    {p : BitVec 32 × Int64} (hq : d.quantization = some q)
    (h : t.declaredQuantization q = .ok p) : p = declaredScale d := by
  unfold declaredQuantization at h
  split at h
  · rename_i scale zeroPoint hs hz
    cases h
    obtain ⟨scales, zeroPoints⟩ := q
    cases hs
    cases hz
    rw [declaredScale, hq]
  · cases h

/-- The data of a tensor that reads `bytes` are the constant of its
declaration. -/
theorem declaredData_eq_ok {d : Source.TensorDecl} {type : ElementType} {bytes : List UInt8}
    {b : Buffer} (hbytes : s.model.bufferData d = .ok bytes)
    (htype : d.elementType.converted? = some type) (hshape : t.shape = d.extents)
    (h : t.declaredData type bytes = .ok b) :
    bytes.isEmpty = false ∧ s.constant? d = some b ∧
      b.length = Relayout.elementCount d.extents := by
  unfold declaredData at h
  simp only at h
  split at h
  · cases h
  · rename_i hne
    split at h
    · cases h
    · rename_i data hdata
      split at h
      · rename_i hlen
        cases h
        refine ⟨by simpa using hne, ?_, by rw [hlen, elementCount, hshape]⟩
        simp [Scope.constant?, hbytes, htype, hne, hdata]
      · cases h

theorem parseData_ends {d : Source.TensorDecl} {type : ElementType}
    (htype : d.elementType.converted? = some type) (hshape : t.shape = d.extents)
    (hdata : t.data = none) :
    Step.Ends Fault.FromInput
      (fun _ t' => (∃ bytes, s.model.bufferData d = .ok bytes ∧
          (s.constant? d).isSome = !bytes.isEmpty) ∧
        (∀ b, s.constant? d = some b → b.length = Relayout.elementCount d.extents) ∧
        t' = { t with isInitializer := (s.constant? d).isSome, data := s.constant? d })
      (parseData s d type t) := by
  unfold parseData
  refine Step.Ends.bind (R := fun bytes t' => s.model.bufferData d = .ok bytes ∧ t = t')
    (Step.Ends.lift fun bytes hbytes => ⟨hbytes, rfl⟩) ?_
  rintro bytes _ ⟨hbytes, rfl⟩
  simp only [Step.run_bind, Step.run_modify, Step.run_get]
  by_cases hinit : (t.isInitializer || !bytes.isEmpty) = true
  · rw [if_pos hinit]
    refine Step.Ends.bind
      (R := fun b t' => { t with isInitializer := t.isInitializer || !bytes.isEmpty } = t' ∧
        bytes.isEmpty = false ∧ s.constant? d = some b ∧
        b.length = Relayout.elementCount d.extents)
      (Step.Ends.lift fun b hb => ?_) ?_
    · exact ⟨rfl, declaredData_eq_ok hbytes htype hshape hb⟩
    · rintro b _ ⟨rfl, hne, hconst, hlen⟩
      refine ⟨⟨bytes, hbytes, by simp [hconst, hne]⟩, fun b' hb' => ?_, ?_⟩
      · rw [hconst] at hb'
        cases hb'
        exact hlen
      · simp [hconst, hne]
  · -- without bytes there is no constant
    rw [if_neg hinit]
    simp only [Bool.not_eq_true, Bool.or_eq_false_iff, Bool.not_eq_false'] at hinit
    have hnone : s.constant? d = none := by simp [Scope.constant?, hbytes, htype, hinit.2]
    refine ⟨⟨bytes, hbytes, by simp [hnone, hinit.2]⟩, fun b hb => ?_, ?_⟩
    · rw [hnone] at hb
      cases hb
    · simp [hnone, hinit.1, hinit.2, ← hdata]

theorem parseQuantization_ends (d : Source.TensorDecl) (hscale : t.scale = defaultScale)
    (hzero : t.zeroPoint = defaultZeroPoint) :
    Step.Ends Fault.FromInput
      (fun _ t' => { t with scale := (declaredScale d).1, zeroPoint := (declaredScale d).2 } = t')
      (parseQuantization d t) := by
  unfold parseQuantization
  cases hq : d.quantization with
  | none =>
      have hnone : declaredScale d = (defaultScale, defaultZeroPoint) := by
        rw [declaredScale, hq]
      change { t with scale := (declaredScale d).1, zeroPoint := (declaredScale d).2 } = t
      rw [hnone, ← hscale, ← hzero]
  | some q =>
      dsimp only
      rw [Step.run_bind_of_ok (Step.run_get t)]
      refine Step.Ends.bind (R := fun p t' => declaredScale d = p ∧ t = t')
        (Step.Ends.lift fun p hp => ⟨(declaredQuantization_eq_ok hq hp).symm, rfl⟩) ?_
      rintro _ _ ⟨rfl, rfl⟩
      rfl

/-- Reading a tensor for the first time makes it what its declaration says. -/
theorem parse_fresh {k : Nat} {d : Source.TensorDecl} {layout : Option Layout}
    {constant : Bool} {id : TensorId} (hk : s.subgraph.tensor (.ofNat k) = .ok d) :
    Step.Ends Fault.FromInput
      (fun _ t => ∃ type, s.Reads d type ∧ t = declared s k d type layout id)
      (parse s (fresh d.name (some k) layout constant id)) := by
  generalize ht : fresh d.name (some k) layout constant id = t
  have hopen : t.status.isParsed = false := by subst ht; rfl
  have hindex : t.sourceIndex = some k := by subst ht; rfl
  cases hshape : t.declaredShape d with
  | error e =>
      rw [parse_of_shape_error hopen hindex hk hshape]
      trivial
  | ok shape =>
  obtain ⟨hnonneg, rfl⟩ := declaredShape_eq_ok hshape
  cases htype : t.declaredType d with
  | error e =>
      rw [parse_of_type_error hopen hindex hk hshape htype]
      trivial
  | ok type =>
  have hconverted := declaredType_eq_ok htype
  rw [parse_of_untyped hopen hindex hk hshape htype (by subst ht; rfl)]
  -- `u` has no data yet, and no quantization but the default one
  generalize hu : { t with shape := d.extents, elementType := some type } = u
  refine (parseQuantization_ends d (by subst hu ht; rfl) (by subst hu ht; rfl)).bind ?_
  rintro _ _ rfl
  refine (parseData_ends hconverted (by subst hu ht; rfl) (by subst hu ht; rfl)).bind ?_
  rintro _ _ ⟨hbytes, hfills, rfl⟩
  rw [Step.run_update (show _ = Except.ok (declared s k d type layout id) by subst hu ht; rfl)]
  exact ⟨type, ⟨hnonneg, hconverted, hbytes, hfills⟩, rfl⟩

end Reading

/-! ## Moving -/

section Moving

variable {t : Tensor} {l : Layout}

theorem filled_of_transposed {shape : List Nat} {data : Option Buffer}
    (h : ∀ b, data = some b → b.length = Relayout.elementCount shape)
    (hrank : shape.length = l.rank) :
    ∀ b, data.map (fun b => b.transposed l.perm shape) = some b →
      b.length = Relayout.elementCount (permutedDims l.perm shape) := by
  intro b hb
  obtain ⟨b', hb', rfl⟩ := Option.map_eq_some_iff.mp hb
  rw [l.elementCount_permutedDims hrank, ← h b' hb']
  exact Layout.length_transposed_perm hrank (h b' hb')

theorem permuted_eq (hrank : t.rank = l.rank) (hfill : t.Filled) :
    t.permuted l = .ok { t with
      shape := permutedDims l.perm t.shape
      data := t.data.map fun b => b.transposed l.perm t.shape } := by
  have hshape := l.permute_eq hrank
  unfold permuted
  cases hd : t.data with
  | none =>
      simp only [hshape, Option.mapM_none, bind, Except.bind, pure, Except.pure, Option.map_none]
  | some b =>
      have hb := b.permute_eq hrank (hfill b hd)
      simp only [hshape, hb, Option.mapM_some, Functor.map, Except.map, bind, Except.bind, pure,
        Except.pure, Option.map_some]

theorem moved_of_isMatch (hl : t.layout = some l) (hm : l.isMatch = true) :
    t.moved = { t with status := .transformed } := by
  unfold moved
  split
  · rename_i hnone
    rw [hnone] at hl
    cases hl
  · rename_i l' hl'
    rw [hl'] at hl
    cases hl
    rw [if_pos hm]

theorem moved_of_not_isMatch (hl : t.layout = some l) (hm : l.isMatch = false) :
    t.moved = { t with
      shape := permutedDims l.perm t.shape
      data := t.data.map fun b => b.transposed l.perm t.shape
      status := .transformed } := by
  unfold moved
  split
  · rename_i hnone
    rw [hnone] at hl
    cases hl
  · rename_i l' hl'
    rw [hl'] at hl
    cases hl
    rw [if_neg (by simp [hm])]

/-- Moving a tensor leaves it alone, marks it, or permutes it. -/
theorem moved_cases {P : Tensor → Prop} (t : Tensor) (hnone : P t)
    (hmarked : P { t with status := .transformed })
    (hpermuted : ∀ l, t.layout = some l → l.isMatch = false → P { t with
      shape := permutedDims l.perm t.shape
      data := t.data.map fun b => b.transposed l.perm t.shape
      status := .transformed }) : P t.moved := by
  cases hl : t.layout with
  | none => rwa [moved_of_layout_none hl]
  | some l =>
      cases hm : l.isMatch with
      | true => rwa [moved_of_isMatch hl hm]
      | false =>
          rw [moved_of_not_isMatch hl hm]
          exact hpermuted l hl hm

/-- The shape, in the order of the layout. -/
theorem shape_moved (hl : t.layout = some l) (hrank : t.rank = l.rank) :
    t.moved.shape = permutedDims l.perm t.shape := by
  cases hmatch : l.isMatch with
  | true =>
      rw [moved_of_isMatch hl hmatch]
      exact (Layout.permutedDims_of_isMatch hmatch hrank).symm
  | false => rw [moved_of_not_isMatch hl hmatch]

/-- A layout that moves nothing, or has the rank of a tensor whose data fills its
shape, is applied. -/
theorem transform_eq_moved (hparsed : t.status = .parsed) (hl : t.layout = some l)
    (h : l.isMatch = true ∨ t.rank = l.rank ∧ t.Filled) :
    t.transform = .ok t.moved := by
  have hadvance : ∀ u : Tensor, u.status = .parsed →
      u.advance .transformed = .ok { u with status := .transformed } := by
    intro u hu
    simp [advance, hu, Status.advance, Status.stage, bind, Except.bind, pure, Except.pure]
  have hopen : t.transform = if l.isMatch then t.advance .transformed
      else t.permuted l >>= fun t => t.advance .transformed := by
    simp [transform, hparsed, hl, Status.isParsed, Status.isTransformed, Status.stage]
  rw [hopen]
  cases hm : l.isMatch with
  | true => rw [moved_of_isMatch hl hm, if_pos rfl, hadvance t hparsed]
  | false =>
      obtain ⟨hrank, hfill⟩ := h.resolve_left (by simp [hm])
      rw [moved_of_not_isMatch hl hm, if_neg (by simp), permuted_eq hrank hfill]
      exact hadvance _ hparsed

theorem permuted_of_rank_ne (h : t.rank ≠ l.rank) : ∃ v, t.permuted l = .error v := by
  have hshape := l.permute_of_length_ne h
  unfold permuted
  cases hd : t.data with
  | none =>
      exact ⟨.shapeRank l t.rank, by simp [hshape, bind, Except.bind, pure, Except.pure, rank]⟩
  | some b =>
      exact ⟨.shapeRank l t.rank, by
        simp [Buffer.permute, l.permuteBuffer_of_length_ne h, bind, Except.bind, rank,
          Functor.map, Except.map]⟩

theorem permuted_of_not_filled (hrank : t.rank = l.rank) (h : ¬t.Filled) :
    ∃ v, t.permuted l = .error v := by
  simp only [Filled, not_forall] at h
  obtain ⟨b, hb, hne⟩ := h
  refine ⟨.bufferSize b.elements.length t.shape, ?_⟩
  simp [permuted, hb, Buffer.permute, l.permuteBuffer_of_elementCount_ne hrank hne, bind,
    Except.bind, Functor.map, Except.map]

/-- Any other layout breaks an invariant. -/
theorem transform_of_not_movable (hparsed : t.status = .parsed) (hl : t.layout = some l)
    (hm : l.isMatch = false) (h : ¬(t.rank = l.rank ∧ t.Filled)) :
    ∃ v, t.transform = .error v := by
  obtain ⟨v, hv⟩ : ∃ v, t.permuted l = .error v := by
    by_cases hrank : t.rank = l.rank
    · exact permuted_of_not_filled hrank fun hfill => h ⟨hrank, hfill⟩
    · exact permuted_of_rank_ne hrank
  refine ⟨v, ?_⟩
  simp [transform, hparsed, hl, hm, Status.isParsed, Status.isTransformed, Status.stage, hv, bind,
    Except.bind]

theorem moved_status (hl : t.layout = some l) : t.moved.status = .transformed := by
  cases hm : l.isMatch with
  | true => rw [moved_of_isMatch hl hm]
  | false => rw [moved_of_not_isMatch hl hm]

@[simp] theorem moved_sourceIndex (t : Tensor) : t.moved.sourceIndex = t.sourceIndex := by
  unfold moved; split <;> [rfl; (split <;> rfl)]

end Moving

end Tensor

end Relayout
