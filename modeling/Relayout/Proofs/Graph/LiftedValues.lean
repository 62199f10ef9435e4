/-
# What a lifted operand becomes

A reshape copies: its result has the elements of its operand, in their order, and
the dimensions that its shape operand lists.  A tensor that is tagged with a layout
should have its elements in target order.  Of a lift, adapting moves the shape
operand and nothing else, so its result has the right dimensions always, and the
right elements exactly if there was nothing to move: the layout keeps the order of
the axes that hold more or less than one index.
-/
import Relayout.Proofs.Casting
import Relayout.Proofs.Constants
import Relayout.Proofs.Graph.Lifts
import Relayout.Proofs.Layout.Order

namespace Relayout

theorem Buffer.toInts?_ofInts {shape : List Nat} (h : ∀ d ∈ shape, d < 2 ^ 63) :
    (ofInts .int64 (shape.map Int.ofNat)).toInts? = some (shape.map Int.ofNat) := by
  refine toInts?_ofInts_of_inRange rfl ?_
  intro i hi
  obtain ⟨d, hd, rfl⟩ := List.mem_map.mp hi
  have := h d hd
  change -2 ^ 63 ≤ (d : Int) ∧ (d : Int) < 2 ^ 63
  omega

namespace Graph

variable {g k k' : Graph} {id reshape : OpId} {slot : Nat} {operand : TensorId} {o : Operator}
  {t s : Tensor} {l : Layout} {done : List Lift} {e : Lift} {b : Buffer}

theorem mem_widened {rank d : Nat} {shape : List Nat} (h : d ∈ widened rank shape) :
    d = 1 ∨ d ∈ shape := by
  rcases List.mem_append.mp h with h | h
  · exact Or.inl (List.eq_of_mem_replicate h)
  · exact Or.inr h

/-- Leading ones hold nothing more. -/
theorem elementCount_widened (rank : Nat) (shape : List Nat) :
    elementCount (widened rank shape) = elementCount shape := by
  rw [widened]
  induction rank - shape.length with
  | zero => rfl
  | succ n ih => rw [List.replicate_succ, List.cons_append, elementCount_cons, ih, Nat.one_mul]

/-! ## Running a reshape -/

/-- The dimensions that the shape operand of an operator lists: constant integers
that are not negative. -/
def listedDims? (g : Graph) (o : Operator) : Option (List Nat) := do
  let shape ← o.inputs[1]?
  let t ← g.tensors[shape.index]?
  let extents ← (← t.data).toInts?
  if ∀ n ∈ extents, 0 ≤ n then some (extents.map Int.toNat) else none

/-- What reshape `id` makes of a buffer: a copy, with the listed dimensions, which
it has to fill. -/
def reshaped? (g : Graph) (id : OpId) (b : Buffer) : Option (List Nat × Buffer) := do
  let dims ← g.listedDims? (← g.ops[id.index]?)
  if b.length = elementCount dims then some (dims, b) else none

theorem listedDims?_eq {w : TensorId} {shape : List Nat} (hw : o.inputs[1]? = some w)
    (ht : g.tensors[w.index]? = some t)
    (hdata : t.data = some (.ofInts .int64 (shape.map Int.ofNat)))
    (hshape : ∀ d ∈ shape, d < 2 ^ 63) : g.listedDims? o = some shape := by
  have hnonneg : ∀ n ∈ shape.map Int.ofNat, 0 ≤ n := by simp
  have hback : (shape.map Int.ofNat).map Int.toNat = shape := by simp [Function.comp_def]
  simp only [listedDims?, hw, ht, hdata, Buffer.toInts?_ofInts hshape, bind, Option.bind,
    if_pos hnonneg, hback]

/-- A lift whose operand has no other, run once the graph was adapted. -/
theorem Lifted.reshaped?_eq (hk : Lifted done k) (he : e ∈ done) (h : transform k = .ok () k')
    (hsole : liftsOf done e.subject = [e]) (hshape : ∀ d ∈ e.shape, d < 2 ^ 63)
    (hb : b.length = elementCount e.shape) :
    k'.reshaped? e.reshape b = some (permutedDims e.layout.perm e.shape, b) := by
  obtain ⟨-, -, ⟨o, status, ho, ho', -⟩, -⟩ := hk.output_adapted he h
  obtain ⟨o₁, w, s, ho₁, hw, hs, hdata⟩ := hk.shape_adapted he h hsole
  obtain rfl := Option.some.inj (ho.symm.trans ho₁)
  have hdims : k'.listedDims? { o with status := status } =
      some (permutedDims e.layout.perm e.shape) :=
    listedDims?_eq hw hs hdata (Tensor.Writable.permutedDims_lt hshape)
  rw [← e.layout.elementCount_permutedDims e.rank_shape] at hb
  simp only [reshaped?, ho', hdims, bind, Option.bind, if_pos hb]

end Graph

/-! ## Moved elements -/

/-- There are two elements of every type. -/
theorem ElementType.zero_ne_one (type : ElementType) :
    BitVec.ofNat type.bitWidth 0 ≠ BitVec.ofNat type.bitWidth 1 := by
  cases type <;> decide

/-- A copy is what moving makes of every buffer of a type exactly if the layout
keeps the order of the axes. -/
theorem Layout.permute_eq_self_iff {l : Layout} {shape : List Nat} (type : ElementType)
    (h : shape.length = l.rank) :
    (∀ b : Buffer, b.elementType = type → b.length = elementCount shape →
        b.permute l shape = .ok b) ↔ elementCount shape = 0 ∨ l.KeepsOrder shape := by
  rw [← l.transposed_eq_self_iff type.zero_ne_one h]
  constructor
  · intro hb data hdata
    have hself := hb ⟨type, data⟩ rfl hdata
    rw [Buffer.permute_eq ⟨type, data⟩ h hdata] at hself
    exact eq_of_heq (Buffer.mk.inj (Except.ok.inj hself)).2
  · rintro hdata b rfl hb
    rw [Buffer.permute_eq _ h hb, Buffer.transposed, hdata b.elements hb]

namespace Graph

variable {g k k' : Graph} {id reshape : OpId} {slot : Nat} {operand : TensorId} {o : Operator}
  {t : Tensor} {l : Layout} {s : Scope} {layouts : SortedMap ExplicitLayout}

section One

variable (h : Intake s layouts g) (hnames : s.Unreserved) (hat : g.HoldsAt id slot o operand t)
  (hrank : t.rank < l.rank) (hrun : transform (g.rankLifted id operand t l) = .ok () k')

include h hnames hat

/-- One lift in a graph that was read. -/
theorem Intake.lifted_one : Lifted [.of operand t ⟨g.ops.length⟩ l hrank]
    (g.rankLifted id operand t l) :=
  (h.lifted hnames).rankLifted hat.tensor hrank id

include hrun

/-- Its operand stays what it was, if it has no layout. -/
theorem Intake.operand_adapted (hlayout : t.layout = none) :
    ∃ t', k'.tensors[operand.index]? = some t' ∧ t'.shape = t.shape := by
  obtain ⟨u, hu, hbare, -⟩ := hat.rankLifted_operand h.named h.taken.wired l
  have hname : u.name = t.name := (congrArg Tensor.name hbare :)
  have hnone : u.layout = none := (congrArg Tensor.layout hbare :).trans hlayout
  have hclear : ¬SplicedName u.moved.name := by
    rw [Tensor.moved_name, hname]
    rintro ⟨subject, hspliced⟩
    obtain ⟨hturned, hwritten⟩ := h.clear hnames t (List.mem_of_getElem? hat.tensor) subject
    exact hspliced.elim hturned hwritten
  obtain ⟨t', ht', hkept, -⟩ :=
    ((h.unmoved.rankLifted h.named id operand t l).spares (h.named.rankLifted id operand t l)
      hrun).tensor (getElem?_moved hu) hclear
  refine ⟨t', ht', ?_⟩
  rw [hkept.shape, Tensor.moved_of_layout_none hnone]
  exact (congrArg Tensor.shape hbare :)

/-- Its reshape reads the operand, and writes a tensor of the lifted shape, in the
order of the layout. -/
theorem Intake.lift_adapted (hrank : t.rank < l.rank) (hlayout : t.layout = none) :
    ∃ o' t' v u, k'.HoldsAt ⟨g.ops.length⟩ 0 o' operand t' ∧ t'.shape = t.shape ∧
      k'.ShapesInto ⟨g.ops.length⟩ o' v u ∧
      u.shape = permutedDims l.perm (widened l.rank t.shape) ∧ u.layout = some l := by
  have hk : Lifted _ (g.rankLifted id operand t l) := h.lifted_one hnames hat hrank
  have he := List.mem_singleton_self (Lift.of operand t ⟨g.ops.length⟩ l hrank)
  have hsole := liftsOf_concat_self [] (Lift.of operand t ⟨g.ops.length⟩ l hrank)
  obtain ⟨y, u, ⟨o₁, status, ho, ho', houtputs⟩, hu, -, hmoved⟩ := hk.output_adapted he hrun
  obtain ⟨o₂, w, v, ho₂, hw, hv, -⟩ := hk.shape_adapted he hrun hsole
  obtain rfl := Option.some.inj (ho.symm.trans ho₂)
  obtain rfl := Option.some.inj (ho.symm.trans (getElem?_ops_rankLifted g id operand t l))
  obtain ⟨t', ht', hshape⟩ := h.operand_adapted hnames hat hrun hlayout
  exact ⟨_, t', v, u, ⟨ho', rfl, ht'⟩, hshape, ⟨ho', ⟨w, hw, hv⟩, y, houtputs, hu⟩, hmoved _ hsole⟩

/-- It copies the operand to the lifted shape, in the order of the layout. -/
theorem Intake.lift_reshaped? (hs : s.Storable) (hrank : t.rank < l.rank) {b : Buffer}
    (hb : b.length = t.elementCount) : k'.reshaped? ⟨g.ops.length⟩ b =
      some (permutedDims l.perm (widened l.rank t.shape), b) := by
  have hk : Lifted _ (g.rankLifted id operand t l) := h.lifted_one hnames hat hrank
  refine hk.reshaped?_eq (List.mem_singleton_self _) hrun (liftsOf_concat_self [] _)
    (fun d hd => ?_) (hb.trans (elementCount_widened l.rank t.shape).symm)
  rcases mem_widened hd with rfl | hd
  · decide
  · exact h.measured hs (List.mem_of_getElem? hat.tensor) d hd

end One

/-- A lift of an operand without a layout, and adapting: the reshape reads the
operand as it was, and writes a tensor with the layout and with the lifted shape in
its order. Its result has these dimensions and the elements of the operand, so
these are in the order of the layout, for all buffers of a type that fill the
operand, exactly if there are none or the layout keeps the order of the axes. -/
theorem liftRank_moves_iff (h : IsIntake s layouts g) (hnames : s.Unreserved) (hs : s.Storable)
    (hat : g.HoldsAt id slot o operand t) (hlayout : t.layout = none)
    (hlift : liftRank id slot l g = .ok reshape k) (hrun : transform k = .ok () k') :
    ∃ dims, l.permute (widened l.rank t.shape) = .ok dims ∧
      (∃ o' t' v u, k'.HoldsAt reshape 0 o' operand t' ∧ t'.shape = t.shape ∧
        k'.ShapesInto reshape o' v u ∧ u.shape = dims ∧ u.layout = some l) ∧
      (∀ b : Buffer, b.length = t.elementCount → k'.reshaped? reshape b = some (dims, b)) ∧
      ∀ type : ElementType,
        (∀ b : Buffer, b.elementType = type → b.length = t.elementCount →
          ∃ moved, b.permute l (widened l.rank t.shape) = .ok moved ∧
            k'.reshaped? reshape b = some (dims, moved)) ↔
          t.elementCount = 0 ∨ l.KeepsOrder (widened l.rank t.shape) := by
  obtain ⟨o', operand', t', hat', -, hrank, -, -, rfl, rfl⟩ := liftRank_eq_ok h.intake.named hlift
  obtain ⟨rfl, rfl, rfl⟩ := hat'.unique hat
  have hlength : (widened l.rank t.shape).length = l.rank := length_widened (Nat.le_of_lt hrank)
  have hcount : elementCount (widened l.rank t.shape) = t.elementCount :=
    elementCount_widened l.rank t.shape
  have hcopy : ∀ b : Buffer, b.length = t.elementCount → k'.reshaped? ⟨g.ops.length⟩ b =
      some (permutedDims l.perm (widened l.rank t.shape), b) := fun b hb =>
    h.intake.lift_reshaped? hnames hat hrun hs hrank hb
  refine ⟨_, l.permute_eq hlength, h.intake.lift_adapted hnames hat hrun hrank hlayout, hcopy,
    fun type => ?_⟩
  rw [← hcount, ← l.permute_eq_self_iff type hlength, hcount]
  refine forall_congr' fun b => forall_congr' fun _ => forall_congr' fun hb => ?_
  rw [hcopy b hb]
  constructor
  · rintro ⟨moved, hmoved, heq⟩
    rw [hmoved, (Prod.mk.inj (Option.some.inj heq)).2]
  · exact fun hself => ⟨b, hself, rfl⟩

/-- A layout of three axes that moves the first one, which a lift adds. -/
def raisedLayout : Layout := ⟨['A', 'B', 'C'], ['B', 'A', 'C'], by decide, by decide⟩

theorem forkedScope_storable : forkedScope.Storable where
  subgraph :=
    { tensors := by decide
      newShapes := by
        intro decl hdecl newShape hoptions
        have hall : ∀ decl ∈ forkedScope.subgraph.operators, decl.options = .reshape [4] := by
          decide
        rw [hall decl hdecl] at hoptions
        cases hoptions
        decide }
  buffers := by decide

/-- The value that is read twice, lifted for its first reader, and adapting. -/
theorem forkedScope_lift
    (h : (intakeThen? forkedScope .empty (do let _ ← liftRank ⟨0⟩ 0 l; transform)).any
      (fun r => decide ((r.1.ops[0]?.bind fun o => o.inputs[0]?) = some ⟨0⟩ ∧
        (r.1.tensors[0]?.map fun t => (t.shape, t.layout)) = some ([2, 2], none))) = true) :
    ∃ g o t reshape k k', IsIntake forkedScope .empty g ∧ g.HoldsAt ⟨0⟩ 0 o ⟨0⟩ t ∧
      t.shape = [2, 2] ∧ t.layout = none ∧ liftRank ⟨0⟩ 0 l g = .ok reshape k ∧
      transform k = .ok () k' := by
  obtain ⟨g, k', hg, hrun, hseen⟩ := exists_of_intakeThen? _ _ _ _ h
  obtain ⟨hop, htensor⟩ := of_decide_eq_true hseen
  obtain ⟨o, ho, hslot⟩ := Option.bind_eq_some_iff.mp hop
  obtain ⟨t, ht, hshape⟩ := Option.map_eq_some_iff.mp htensor
  obtain ⟨reshape, k, hlift, hrun⟩ := Step.bind_eq_ok.mp hrun
  obtain ⟨hshape, hlayout⟩ := Prod.mk.inj hshape
  exact ⟨g, o, t, reshape, k, k', hg, ⟨ho, hslot, ht⟩, hshape, hlayout, hlift, hrun⟩

theorem liftRank_moves_iff_raised : ∃ g o t reshape k k', IsIntake forkedScope .empty g ∧
    forkedScope.Unreserved ∧ forkedScope.Storable ∧ g.HoldsAt ⟨0⟩ 0 o ⟨0⟩ t ∧
    t.layout = none ∧ liftRank ⟨0⟩ 0 raisedLayout g = .ok reshape k ∧ transform k = .ok () k' ∧
    ∀ b : Buffer, b.elementType = .float32 → b.length = 4 →
      ∃ moved, b.permute raisedLayout [1, 2, 2] = .ok moved ∧
        k'.reshaped? reshape b = some ([2, 1, 2], moved) := by
  obtain ⟨g, o, t, reshape, k, k', hg, hat, hshape, hlayout, hlift, hrun⟩ :=
    forkedScope_lift (l := raisedLayout) (by decide +kernel)
  obtain ⟨dims, hdims, -, -, hmoves⟩ :=
    liftRank_moves_iff hg forkedScope_unreserved forkedScope_storable hat hlayout hlift hrun
  rw [Tensor.elementCount, hshape] at hmoves
  rw [hshape] at hdims
  obtain rfl : [2, 1, 2] = dims := Except.ok.inj ((by decide : _ = _).symm.trans hdims)
  exact ⟨g, o, t, reshape, k, k', hg, forkedScope_unreserved, forkedScope_storable, hat, hlayout,
    hlift, hrun, (hmoves .float32).mpr (Or.inr (by decide))⟩

/-- What a lift makes of its operand need not be in the order of its layout. -/
theorem liftRank_not_moves :
    ¬∀ (s : Scope) (layouts : SortedMap ExplicitLayout) (g k k' : Graph) (id reshape : OpId)
        (slot : Nat) (o : Operator) (operand : TensorId) (t : Tensor) (l : Layout),
      IsIntake s layouts g → g.HoldsAt id slot o operand t → t.layout = none →
      liftRank id slot l g = .ok reshape k → transform k = .ok () k' →
        ∀ b : Buffer, b.length = t.elementCount →
          ∃ dims moved, l.permute (widened l.rank t.shape) = .ok dims ∧
            b.permute l (widened l.rank t.shape) = .ok moved ∧
            k'.reshaped? reshape b = some (dims, moved) := by
  intro hclaim
  obtain ⟨g, o, t, reshape, k, k', hg, hat, hshape, hlayout, hlift, hrun⟩ :=
    forkedScope_lift (l := exchangedLayout) (by decide +kernel)
  let b : Buffer := ⟨.float32, [0, 1, 2, 3]⟩
  have hb : b.length = t.elementCount := by rw [Tensor.elementCount, hshape]; rfl
  obtain ⟨dims, moved, hdims, hmoved, hreshaped⟩ :=
    hclaim _ _ g k k' _ reshape _ o _ t _ hg hat hlayout hlift hrun b hb
  obtain ⟨o', operand', t', hat', -, hrank, -, -, rfl, rfl⟩ := liftRank_eq_ok hg.intake.named hlift
  obtain ⟨rfl, rfl, rfl⟩ := hat'.unique hat
  rw [hg.intake.lift_reshaped? forkedScope_unreserved hat hrun forkedScope_storable hrank hb]
    at hreshaped
  obtain rfl := (Prod.mk.inj (Option.some.inj hreshaped)).2
  rw [hshape] at hmoved
  exact absurd hmoved (by decide)

end Graph

end Relayout
