/-
# Which declarations are read

A tensor is read from its declaration part by part, and reading stops at the first
part that does not fit.  Every part comes with what it does to a declaration that
fits and with what it leaves of one that does not: whatever goes wrong behind the
element type, the tensor keeps its form (`Tensor.SameForm`).  So a tensor is read
exactly if all parts fit.
-/
import Relayout.Proofs.Aftermath
import Relayout.Proofs.Decoding
import Relayout.Proofs.Tensor

namespace Relayout

/-! ## Declarations that fit -/

/-- Quantized, if at all, by one scale and one zero point. -/
def Source.TensorDecl.Calibrated (d : Source.TensorDecl) : Prop :=
  ∀ q, d.quantization = some q → q.scale.length = 1 ∧ q.zeroPoint.length = 1

/-- Either there are no bytes and no constant is asked for, or the bytes are as
many as `count` elements of the type take. -/
def Scope.Supplies (s : Scope) (d : Source.TensorDecl) (constant : Bool) (type : ElementType)
    (count : Nat) : Prop :=
  ∃ bytes, s.model.buffers[d.buffer.toNat]? = some bytes ∧
    (bytes = [] ∧ constant = false ∨ bytes ≠ [] ∧ bytes.length = type.byteSize * count)

/-- A declaration that can be read, as a constant if one is asked for. -/
structure Scope.Accepts (s : Scope) (d : Source.TensorDecl) (constant : Bool) : Prop where
  nonneg : ∀ n ∈ d.shape, 0 ≤ n.toInt
  typed : d.elementType.converted?.isSome = true
  calibrated : d.Calibrated
  supplied : ∀ type, d.elementType.converted? = some type →
    s.Supplies d constant type (elementCount d.extents)

/-- A tensor says what its declaration says. -/
structure Scope.Renders (s : Scope) (d : Source.TensorDecl) (t : Tensor) : Prop where
  name : t.name = d.name
  shape : t.shape.map Int.ofNat = d.shape.map Int64.toInt
  elementType : t.elementType = d.elementType.converted?
  quantized : ∀ q, d.quantization = some q → q.scale = [t.scale] ∧ q.zeroPoint = [t.zeroPoint]
  /-- The scale of a tensor without quantization is one. -/
  unquantized : d.quantization = none →
    t.scale.toNat = Format.single.ofInt 1 ∧ t.zeroPoint = 127
  runtime : s.model.buffers[d.buffer.toNat]? = some [] → t.isInitializer = false ∧ t.data = none
  constant : ∀ bytes, s.model.buffers[d.buffer.toNat]? = some bytes → bytes ≠ [] →
    t.isInitializer = true ∧ ∃ b, t.data = some b ∧ t.elementType = some b.elementType ∧
      b.length = t.elementCount ∧ b.Decodes bytes
  read : t.status = .parsed

namespace Source.Model

variable {m : Model} {d : TensorDecl} {bytes : List UInt8}

theorem bufferData_eq_ok :
    m.bufferData d = .ok bytes ↔ m.buffers[d.buffer.toNat]? = some bytes := by
  unfold bufferData
  split <;> simp [*]

end Source.Model

namespace Tensor

variable {s : Scope} {t t' : Tensor} {k : Nat} {d : Source.TensorDecl} {shape : List Nat}
  {type : ElementType}

/-! ## Quantization and data -/

/-- The tensors differ at most in what is filled in. -/
def SameForm (t t' : Tensor) : Prop :=
  ∃ isInitializer data scale zeroPoint, t' = { t with
    isInitializer := isInitializer, data := data, scale := scale, zeroPoint := zeroPoint }

theorem SameForm.refl (t : Tensor) : t.SameForm t := ⟨_, _, _, _, rfl⟩

theorem SameForm.trans {t'' : Tensor} (h : t.SameForm t') (h' : t'.SameForm t'') :
    t.SameForm t'' := by
  obtain ⟨_, _, _, _, rfl⟩ := h
  obtain ⟨_, _, _, _, rfl⟩ := h'
  exact ⟨_, _, _, _, rfl⟩

theorem SameForm.id (h : t.SameForm t') : t'.id = t.id := by
  obtain ⟨_, _, _, _, rfl⟩ := h
  rfl

theorem SameForm.name (h : t.SameForm t') : t'.name = t.name := by
  obtain ⟨_, _, _, _, rfl⟩ := h
  rfl

theorem SameForm.elementCount (h : t.SameForm t') : t'.elementCount = t.elementCount := by
  obtain ⟨_, _, _, _, rfl⟩ := h
  rfl

theorem SameForm.status (h : t.SameForm t') : t'.status = t.status := by
  obtain ⟨_, _, _, _, rfl⟩ := h
  rfl

theorem parseQuantization_of_calibrated (h : d.Calibrated) (t : Tensor) :
    ∃ t', parseQuantization d t = .ok () t' ∧ t.SameForm t' ∧
      t'.isInitializer = t.isInitializer := by
  cases hq : d.quantization with
  | none => exact ⟨t, by rw [parseQuantization, hq]; rfl, .refl t, rfl⟩
  | some q =>
      obtain ⟨scale, hscale⟩ := List.length_eq_one_iff.mp (h q hq).1
      obtain ⟨zeroPoint, hzero⟩ := List.length_eq_one_iff.mp (h q hq).2
      refine ⟨{ t with scale := scale, zeroPoint := zeroPoint }, ?_, ⟨_, _, _, _, rfl⟩, rfl⟩
      simp [parseQuantization, hq, declaredQuantization, hscale, hzero, Step.run_bind]

theorem parseQuantization_of_not_calibrated (h : ¬d.Calibrated) (t : Tensor) :
    ∃ e, parseQuantization d t = .error (.input e) t := by
  obtain ⟨q, hq, hlength⟩ : ∃ q, d.quantization = some q ∧
      ¬(q.scale.length = 1 ∧ q.zeroPoint.length = 1) := by
    simpa [Source.TensorDecl.Calibrated] using h
  have hbad : ∃ e, t.declaredQuantization q = .error e := by
    unfold declaredQuantization
    split
    · rename_i hscale hzero
      exact absurd ⟨by rw [hscale]; rfl, by rw [hzero]; rfl⟩ hlength
    · exact ⟨_, rfl⟩
  obtain ⟨e, he⟩ := hbad
  exact ⟨e, by simp [parseQuantization, hq, he, Step.run_bind]⟩

/-- There are data for a tensor exactly behind the right number of bytes. -/
theorem declaredData_isOk_iff {bytes : List UInt8} :
    (∃ b, t.declaredData type bytes = .ok b) ↔
      bytes ≠ [] ∧ bytes.length = type.byteSize * t.elementCount := by
  rw [← Buffer.exists_ofBytes?_iff, declaredData]
  cases bytes with
  | nil => simp
  | cons byte bytes =>
      cases hb : Buffer.ofBytes? type (byte :: bytes) with
      | none => simp
      | some b =>
          by_cases hlength : b.length = t.elementCount <;> simp [hlength]

/-- Without bytes a tensor that is not asked to be a constant stays as it is. -/
theorem parseData_of_no_bytes (hbytes : s.model.bufferData d = .ok [])
    (h : t.isInitializer = false) : parseData s d type t = .ok () t := by
  have hsame : { t with isInitializer := false } = t := by
    cases t
    cases h
    rfl
  simp only [parseData, hbytes, Step.run_bind, Step.run_lift_ok, Step.run_modify, Step.run_get, h,
    List.isEmpty_nil, Bool.not_true, Bool.or_false, Bool.false_eq_true, if_false, hsame]
  rfl

/-- Any other tensor is a constant from then on, and its data are read. -/
theorem parseData_of_constant {bytes : List UInt8} (hbytes : s.model.bufferData d = .ok bytes)
    (h : t.isInitializer = true ∨ bytes ≠ []) :
    parseData s d type t =
      match t.declaredData type bytes with
      | .ok data => .ok () { t with isInitializer := true, data := some data }
      | .error e => .error (.input e) { t with isInitializer := true } := by
  have hinit : (t.isInitializer || !bytes.isEmpty) = true := by simpa using h
  simp only [parseData, hbytes, Step.run_bind, Step.run_lift_ok, Step.run_modify, Step.run_get,
    hinit, if_true]
  -- whether the data are there is a matter of bytes and shape only
  generalize hu : { t with isInitializer := true } = u
  have hdata : u.declaredData type bytes = t.declaredData type bytes := by rw [← hu]; rfl
  rw [hdata]
  cases t.declaredData type bytes <;> rw [← hu] <;> rfl

theorem parseData_of_supplies (h : s.Supplies d t.isInitializer type t.elementCount) :
    ∃ t', parseData s d type t = .ok () t' ∧ t.SameForm t' := by
  obtain ⟨bytes, hbytes, ⟨rfl, hinit⟩ | hdata⟩ := h
  · exact ⟨t, parseData_of_no_bytes (Source.Model.bufferData_eq_ok.mpr hbytes) hinit,
      .refl t⟩
  · obtain ⟨b, hb⟩ := declaredData_isOk_iff.mpr hdata
    refine ⟨{ t with isInitializer := true, data := some b }, ?_, ⟨_, _, _, _, rfl⟩⟩
    rw [parseData_of_constant (Source.Model.bufferData_eq_ok.mpr hbytes) (.inr hdata.1), hb]

theorem parseData_of_not_supplies (h : ¬s.Supplies d t.isInitializer type t.elementCount) :
    ∃ e t', parseData s d type t = .error (.input e) t' ∧ t.SameForm t' := by
  cases hbytes : s.model.bufferData d with
  | error e => exact ⟨e, t, by simp [parseData, hbytes, Step.run_bind], .refl t⟩
  | ok bytes =>
      have hfound := Source.Model.bufferData_eq_ok.mp hbytes
      have hconstant : t.isInitializer = true ∨ bytes ≠ [] := by
        by_contra hneither
        obtain ⟨hinit, hempty⟩ := not_or.mp hneither
        exact h ⟨bytes, hfound, .inl ⟨not_not.mp hempty, Bool.eq_false_iff.mpr hinit⟩⟩
      cases hdata : t.declaredData type bytes with
      | ok b => exact absurd ⟨bytes, hfound, .inr (declaredData_isOk_iff.mp ⟨b, hdata⟩)⟩ h
      | error e =>
          refine ⟨e, { t with isInitializer := true }, ?_, ⟨_, _, _, _, rfl⟩⟩
          rw [parseData_of_constant hbytes hconstant, hdata]

/-- A tensor is filled exactly if its quantization and its bytes fit. -/
theorem fill_of_fits (hcalibrated : d.Calibrated)
    (hsupplies : s.Supplies d t.isInitializer type t.elementCount)
    (hopen : t.status.isParsed = false) :
    ∃ t', fill s d type t = .ok () { t' with status := .parsed } ∧ t.SameForm t' := by
  obtain ⟨t₁, hq, hform, hinit⟩ := parseQuantization_of_calibrated hcalibrated t
  rw [← hinit, ← hform.elementCount] at hsupplies
  obtain ⟨t₂, hdata, hform'⟩ := parseData_of_supplies hsupplies
  rw [← (hform.trans hform').status] at hopen
  refine ⟨t₂, ?_, hform.trans hform'⟩
  rw [fill, Step.run_bind_of_ok hq, Step.run_bind_of_ok hdata]
  have hstage : t₂.status.stage ≤ Status.parsed.stage := by
    simp only [Status.isParsed, decide_eq_false_iff_not] at hopen
    exact (Nat.not_le.mp hopen).le
  exact Step.run_update (by rw [setParsed, advance, Status.advance_of_le hstage]; rfl)

theorem fill_of_misfit (h : ¬(d.Calibrated ∧ s.Supplies d t.isInitializer type t.elementCount)) :
    ∃ e t', fill s d type t = .error (.input e) t' ∧ t.SameForm t' := by
  by_cases hcalibrated : d.Calibrated
  · obtain ⟨t₁, hq, hform, hinit⟩ := parseQuantization_of_calibrated hcalibrated t
    have hbad : ¬s.Supplies d t₁.isInitializer type t₁.elementCount := by
      rw [hinit, hform.elementCount]
      exact fun hsupplies => h ⟨hcalibrated, hsupplies⟩
    obtain ⟨e, t₂, hdata, hform'⟩ := parseData_of_not_supplies hbad
    refine ⟨e, t₂, ?_, hform.trans hform'⟩
    rw [fill, Step.run_bind_of_ok hq, Step.run_bind_of_error hdata]
  · obtain ⟨e, he⟩ := parseQuantization_of_not_calibrated hcalibrated t
    exact ⟨e, t, by rw [fill, Step.run_bind_of_error he], .refl t⟩

/-! ## How reading ends -/

/-- The ways to end, with what is left of the tensor. -/
inductive Reading (s : Scope) (t : Tensor) : EStateM.Result Fault Tensor Unit → Prop
  | again (h : t.status.isParsed = true) : Reading s t (.ok () t)
  | synthetic (h : t.sourceIndex = none) :
      Reading s t (.error (.invariant (.parsedSynthetic t.name)) t)
  | undeclared {k : Nat} {e : ConversionError} (hopen : t.status.isParsed = false)
      (hk : t.sourceIndex = some k) (h : s.subgraph.tensor (.ofNat k) = .error e) :
      Reading s t (.error (.input e) t)
  | shapeless {k : Nat} {d : Source.TensorDecl} {e : ConversionError}
      (hopen : t.status.isParsed = false) (hk : t.sourceIndex = some k)
      (hd : s.subgraph.tensor (.ofNat k) = .ok d) (h : t.declaredShape d = .error e) :
      Reading s t (.error (.input e) t)
  | typeless {k : Nat} {d : Source.TensorDecl} {shape : List Nat} {e : ConversionError}
      (hopen : t.status.isParsed = false) (hk : t.sourceIndex = some k)
      (hd : s.subgraph.tensor (.ofNat k) = .ok d) (hshape : t.declaredShape d = .ok shape)
      (h : t.declaredType d = .error e) :
      Reading s t (.error (.input e) { t with shape := shape })
  | typed {k : Nat} {d : Source.TensorDecl} {shape : List Nat} {type : ElementType}
      (hopen : t.status.isParsed = false) (hk : t.sourceIndex = some k)
      (hd : s.subgraph.tensor (.ofNat k) = .ok d) (hshape : t.declaredShape d = .ok shape)
      (htype : t.declaredType d = .ok type) (h : t.elementType.isSome = true) :
      Reading s t (.error (.invariant (.typedTwice t.name)) { t with shape := shape })
  | misfit {k : Nat} {d : Source.TensorDecl} {shape : List Nat} {type : ElementType}
      {e : ConversionError} {t' : Tensor} (hopen : t.status.isParsed = false)
      (hk : t.sourceIndex = some k) (hd : s.subgraph.tensor (.ofNat k) = .ok d)
      (hshape : t.declaredShape d = .ok shape) (htype : t.declaredType d = .ok type)
      (h : { t with shape := shape, elementType := some type }.SameForm t') :
      Reading s t (.error (.input e) t')
  | read {shape : List Nat} {type : ElementType} {t' : Tensor}
      (h : { t with shape := shape, elementType := some type }.SameForm t') :
      Reading s t (.ok () { t' with status := .parsed })

theorem reading_parse (s : Scope) (t : Tensor) : Reading s t (parse s t) := by
  cases hopen : t.status.isParsed with
  | true => exact parse_of_isParsed (s := s) hopen ▸ .again hopen
  | false =>
  cases hk : t.sourceIndex with
  | none => exact parse_of_sourceIndex_none (s := s) hopen hk ▸ .synthetic hk
  | some k =>
  cases hd : s.subgraph.tensor (.ofNat k) with
  | error e => exact parse_of_declaration_error hopen hk hd ▸ .undeclared hopen hk hd
  | ok d =>
  cases hshape : t.declaredShape d with
  | error e => exact parse_of_shape_error hopen hk hd hshape ▸ .shapeless hopen hk hd hshape
  | ok shape =>
  cases htype : t.declaredType d with
  | error e =>
      exact parse_of_type_error hopen hk hd hshape htype ▸ .typeless hopen hk hd hshape htype
  | ok type =>
  cases hnew : t.elementType with
  | some _ =>
      have htyped : t.elementType.isSome = true := by rw [hnew]; rfl
      exact parse_of_typed hopen hk hd hshape htype htyped ▸ .typed hopen hk hd hshape htype htyped
  | none =>
      rw [parse_of_untyped hopen hk hd hshape htype hnew]
      generalize ht₀ : { t with shape := shape, elementType := some type } = t₀
      by_cases hfits : d.Calibrated ∧ s.Supplies d t₀.isInitializer type t₀.elementCount
      · obtain ⟨t', hfill, hform⟩ := fill_of_fits hfits.1 hfits.2 (by subst ht₀; exact hopen)
        exact hfill ▸ .read (ht₀ ▸ hform)
      · obtain ⟨e, t', hfill, hform⟩ := fill_of_misfit hfits
        exact hfill ▸ .misfit hopen hk hd hshape htype (ht₀ ▸ hform)

/-- Reading keeps the place and the name. -/
theorem entry_parse (s : Scope) (t : Tensor) :
    (Step.after (parse s t)).id = t.id ∧ (Step.after (parse s t)).name = t.name := by
  have h := reading_parse s t
  generalize parse s t = r at h
  cases h with
  | misfit _ _ _ _ _ h => exact ⟨h.id, h.name⟩
  | read h => exact ⟨h.id, h.name⟩
  | _ => exact ⟨rfl, rfl⟩

/-! ## Reading as a whole -/

section Whole

variable {index : Int64} {layout : Option Layout} {constant : Bool} {id : TensorId}

/-- What is read says what was declared. -/
theorem renders_declared (hq : d.Calibrated) (hr : s.Reads d type) :
    s.Renders d (declared s k d type layout id) := by
  have hconstant : ∀ bytes, s.model.buffers[d.buffer.toNat]? = some bytes →
      s.constant? d = if bytes.isEmpty then none else Buffer.ofBytes? type bytes := by
    intro bytes hbytes
    rw [Scope.constant?, Source.Model.bufferData_eq_ok.mpr hbytes, hr.converted]
  refine ⟨rfl, ?_, hr.converted.symm, fun q h => ?_, fun h => ?_, fun h => ?_,
    fun bytes h hne => ?_, rfl⟩
  · change d.extents.map Int.ofNat = _
    rw [Source.TensorDecl.extents, List.map_map]
    exact List.map_congr_left fun n hn => Int.toNat_of_nonneg (hr.nonneg n hn)
  · obtain ⟨scale, hscale⟩ := List.length_eq_one_iff.mp (hq q h).1
    obtain ⟨zeroPoint, hzero⟩ := List.length_eq_one_iff.mp (hq q h).2
    obtain ⟨scales, zeroPoints⟩ := q
    subst hscale hzero
    simp [declared, declaredScale, h]
  · have hplain : declaredScale d = (defaultScale, defaultZeroPoint) := by rw [declaredScale, h]
    change (declaredScale d).1.toNat = _ ∧ (declaredScale d).2 = _
    rw [hplain]
    exact ⟨by decide, rfl⟩
  · have hnone : s.constant? d = none := hconstant [] h
    simp [declared, hnone]
  · obtain ⟨bytes', hbytes, hsome⟩ := hr.constant
    obtain rfl : bytes' = bytes := by
      rw [Source.Model.bufferData_eq_ok, h] at hbytes
      exact (Option.some.inj hbytes).symm
    obtain ⟨b, hb⟩ : ∃ b, s.constant? d = some b :=
      Option.isSome_iff_exists.mp (by rw [hsome]; simpa using hne)
    have hread : Buffer.ofBytes? type bytes' = some b := by
      rw [← hb, hconstant bytes' h, if_neg (by simpa using hne)]
    obtain ⟨htype, hdecodes⟩ := Buffer.ofBytes?_eq_some hread
    exact ⟨by rw [declared, hb]; rfl, b, hb, by rw [declared, htype], hr.fills b hb, hdecodes⟩

theorem parse_of_accepts (hk : s.subgraph.tensor (.ofNat k) = .ok d)
    (h : s.Accepts d constant) :
    ∃ t, parse s (fresh d.name (some k) layout constant id) = .ok () t := by
  obtain ⟨type, htype⟩ := Option.isSome_iff_exists.mp h.typed
  rw [parse_of_untyped rfl rfl hk (declaredShape_of_nonneg h.nonneg)
    (declaredType_of_converted? htype) rfl]
  let t : Tensor := { fresh d.name (some k) layout constant id with
    shape := d.extents, elementType := some type }
  obtain ⟨t', hfill, -⟩ := fill_of_fits (t := t) h.calibrated (h.supplied type htype) rfl
  exact ⟨_, hfill⟩

theorem parse_of_not_accepts (hk : s.subgraph.tensor (.ofNat k) = .ok d)
    (h : ¬s.Accepts d constant) :
    ∃ e t, parse s (fresh d.name (some k) layout constant id) = .error (.input e) t := by
  generalize ht : fresh d.name (some k) layout constant id = t
  have hopen : t.status.isParsed = false := by subst ht; rfl
  have hindex : t.sourceIndex = some k := by subst ht; rfl
  cases hshape : t.declaredShape d with
  | error e => exact ⟨e, t, parse_of_shape_error hopen hindex hk hshape⟩
  | ok shape =>
      obtain ⟨hnonneg, rfl⟩ := declaredShape_eq_ok hshape
      cases htype : t.declaredType d with
      | error e => exact ⟨e, _, parse_of_type_error hopen hindex hk hshape htype⟩
      | ok type =>
          have hconverted := declaredType_eq_ok htype
          rw [parse_of_untyped hopen hindex hk hshape htype (by subst ht; rfl)]
          let u : Tensor := { t with shape := d.extents, elementType := some type }
          have hmisfit : ¬(d.Calibrated ∧ s.Supplies d u.isInitializer type u.elementCount) :=
            fun hfits => h
              { nonneg := hnonneg
                typed := by rw [hconverted]; rfl
                calibrated := hfits.1
                supplied := fun type' htype' => by
                  obtain rfl := Option.some.inj (hconverted.symm.trans htype')
                  subst ht
                  exact hfits.2 }
          obtain ⟨e, t', hfill, -⟩ := fill_of_misfit hmisfit
          exact ⟨e, t', hfill⟩

/-- A tensor just registered is read exactly if its declaration is accepted.  It then
says what the declaration says; otherwise the input is to blame. -/
theorem parse_fresh_iff (hd : s.subgraph.tensor index = .ok d) (layout : Option Layout)
    (constant : Bool) (id : TensorId) :
    ((∃ t, parse s (fresh d.name (some index.toInt.toNat) layout constant id) = .ok () t) ↔
      s.Accepts d constant) ∧
    (∀ t, parse s (fresh d.name (some index.toInt.toNat) layout constant id) = .ok () t →
      s.Renders d t ∧ t.layout = layout) ∧
    (¬s.Accepts d constant → ∃ e t,
      parse s (fresh d.name (some index.toInt.toNat) layout constant id) = .error (.input e) t) := by
  have hk := Source.Subgraph.tensor_ofNat_toNat hd
  have hiff : (∃ t, parse s (fresh d.name (some index.toInt.toNat) layout constant id) = .ok () t) ↔
      s.Accepts d constant := by
    refine ⟨fun ⟨t, ht⟩ => ?_, parse_of_accepts hk⟩
    by_contra h
    obtain ⟨e, t', hbad⟩ := parse_of_not_accepts hk h
    rw [ht] at hbad
    cases hbad
  refine ⟨hiff, fun t ht => ?_, parse_of_not_accepts hk⟩
  have hends : Step.Ends Fault.FromInput
      (fun _ t => ∃ type, s.Reads d type ∧ t = declared s index.toInt.toNat d type layout id)
      (parse s (fresh d.name (some index.toInt.toNat) layout constant id)) := parse_fresh hk
  rw [ht] at hends
  obtain ⟨type, hr, rfl⟩ := hends
  exact ⟨renders_declared (hiff.mp ⟨_, ht⟩).calibrated hr, rfl⟩

/-- Two 16-bit integers in a column, quantized. -/
def columnDecl : Source.TensorDecl := ⟨"w", [2, 1], .int16, 1, some ⟨[0x3f000000], [3]⟩⟩

def columnScope : Scope where
  model := ⟨3, none, [], [[], [1, 0, 0xfe, 0xff]], []⟩
  subgraph := ⟨none, [columnDecl], [], [], []⟩
  strict := true

theorem parse_fresh_column : columnScope.subgraph.tensor 0 = .ok columnDecl ∧
    columnScope.Accepts columnDecl true ∧
    ∃ t, parse columnScope (fresh "w" (some 0) (some .weights) true ⟨0⟩) = .ok () t ∧
      columnScope.Renders columnDecl t ∧ t.shape = [2, 1] ∧ t.data = some ⟨.int16, [1, -2]⟩ := by
  have hrun : parse columnScope (fresh "w" (some 0) (some .weights) true ⟨0⟩) =
      .ok () (declared columnScope 0 columnDecl .int16 (some .weights) ⟨0⟩) := rfl
  have hd : columnScope.subgraph.tensor 0 = .ok columnDecl := rfl
  obtain ⟨hiff, hrenders, -⟩ := parse_fresh_iff hd (some .weights) true ⟨0⟩
  exact ⟨hd, hiff.mp ⟨_, hrun⟩, _, hrun, (hrenders _ hrun).1, rfl, by decide⟩

end Whole

end Tensor

end Relayout
