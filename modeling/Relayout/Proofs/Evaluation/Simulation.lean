/-
# Running both graphs side by side

The converted graph keeps a source tensor under its name, moved to the target
order of its layout.  `Simulates` says so of all values that are there, after the
same number of calls: what is defined holds the moved value of the source, and
what an earlier reshape turned back is there in source order.  Every call keeps
it, by the nodes that the call is lowered to.
-/
import Relayout.Proofs.Evaluation.Program
import Relayout.Proofs.Graph.Boundary
import Relayout.Proofs.Graph.Layouts

namespace Relayout

open Target (checkNodes)

/-! ## Values in two orders -/

namespace Scope

variable (s : Scope) (layouts : SortedMap ExplicitLayout)

/-- The declared dimensions of the tensor at a position. -/
def extentsAt (p : Nat) : List Nat := s.subgraph.tensors[p]?.elim [] Source.TensorDecl.extents

/-- The layout of the tensor at a position. -/
def layoutAt (p : Nat) : Option Layout := s.subgraph.tensors[p]?.bind (s.layoutFor layouts p)

/-- A value has as many elements as the tensor at a position. -/
def Fills (p : Nat) (v : Value) : Prop := v.length = elementCount (s.extentsAt p)

/-- A value of the tensor at a position as the converted graph holds it: permuted
over the declared dimensions, if the tensor has a layout. -/
def movedValue (p : Nat) (v : Value) : Value :=
  (s.layoutAt layouts p).elim v fun l => transposed l.perm (s.extentsAt p) v

/-- What convolution number `k` does, in source order of the convolutions. -/
def convolution? (k : Nat) : Option (Instruction Nat) :=
  (s.subgraph.operators.filter fun decl => s.model.opcode decl = .conv2d)[k]?.bind s.instruction?

/-- The kernels of the converted graph do in target order what those of the source
do in source order.  A bias is in the order that its own layout asks for; one
without a layout stays as it is. -/
structure Carries (F G : Nat → Kernel) : Prop where
  fills : ∀ {k x w y : Nat} {bias : Option (Nat × Value)} {vx vw : Value},
    s.convolution? k = some (.convolve x w (bias.map Prod.fst) y) → s.Fills x vx → s.Fills w vw →
      (∀ e ∈ bias, s.Fills e.1 e.2) → s.Fills y (F k vx vw (bias.map Prod.snd))
  commutes : ∀ {k x w y : Nat} {bias : Option (Nat × Value)} {vx vw : Value},
    s.convolution? k = some (.convolve x w (bias.map Prod.fst) y) → s.Fills x vx → s.Fills w vw →
      (∀ e ∈ bias, s.Fills e.1 e.2) →
        G k (transposed Layout.activation.perm (s.extentsAt x) vx)
            (transposed Layout.weights.perm (s.extentsAt w) vw)
            (bias.map fun e => s.movedValue layouts e.1 e.2) =
          transposed Layout.activation.perm (s.extentsAt y) (F k vx vw (bias.map Prod.snd))

/-- A name is that of the tensor at a position, and tagged with its layout. -/
structure Placed (tag : String → Option Layout) (name : String) (p : Nat) : Prop where
  named : s.nameOf? p = some name
  tagged : tag name = s.layoutAt layouts p
  ranked : ∀ l, s.layoutAt layouts p = some l → (s.extentsAt p).length = l.rank

variable {s layouts} {tag : String → Option Layout} {x : String} {p : Nat} {l : Layout} {v : Value}

theorem movedValue_of_none (h : s.layoutAt layouts p = none) : s.movedValue layouts p v = v := by
  rw [movedValue, h]
  rfl

theorem movedValue_of_some (h : s.layoutAt layouts p = some l) :
    s.movedValue layouts p v = transposed l.perm (s.extentsAt p) v := by
  rw [movedValue, h]
  rfl

end Scope

/-! ## Nodes as instructions -/

theorem Layout.rank_lt (l : Layout) : l.rank < 2 ^ 63 := by
  have hnodup : (l.target.map Char.toNat).Nodup :=
    l.nodup.map_on fun a _ b _ hab => Char.ext (UInt32.toNat_inj.mp hab)
  have hsub : l.target.map Char.toNat ⊆ List.range 0x110000 := by
    intro n hn
    obtain ⟨c, -, rfl⟩ := List.mem_map.mp hn
    have := c.valid
    simp only [UInt32.isValidChar, Nat.isValidChar] at this
    exact List.mem_range.mpr (by change c.val.toNat < _; omega)
  have := (List.subperm_of_subset hnodup hsub).length_le
  rw [List.length_map, List.length_range] at this
  exact Nat.lt_of_le_of_lt this (by decide)

theorem Layout.perm_lt (l : Layout) : ∀ axis ∈ l.perm, axis < 2 ^ 63 := by
  intro axis haxis
  obtain ⟨label, hlabel, rfl⟩ := List.mem_map.mp haxis
  exact Nat.lt_trans (l.idxOf_source_lt hlabel) l.rank_lt

theorem map_toNat_ofNat {ns : List Nat} (h : ∀ n ∈ ns, n < 2 ^ 63) :
    (ns.map Int64.ofNat).map (fun n => n.toInt.toNat) = ns := by
  rw [List.map_map]
  refine (List.map_congr_left fun n hn => ?_).trans (List.map_id ns)
  rw [Function.comp_apply, Int64.toInt_ofNat_of_lt (h n hn), Int.toNat_natCast]
  rfl

namespace Target.Graph

variable {graph : Target.Graph} {node : Target.Node} {name source target : String} {x w y : String}
  {b : Option String} {perm dims : List Nat}

theorem instruction?_turnNode (hperm : ∀ axis ∈ perm, axis < 2 ^ 63)
    (hdims : graph.extents? source = some dims) :
    graph.instruction? (turnNode name perm source target) =
      some (.transpose perm dims source target) := by
  have haxes : ((turnNode name perm source target).attribute? "perm").bind Attribute.axes? =
      some perm := congrArg some (map_toNat_ofNat hperm)
  have htype : (turnNode name perm source target).opType = "Transpose" := rfl
  rw [instruction?, if_neg (by simp [htype]), if_neg (by simp [htype]), if_pos htype, haxes]
  simp [turnNode, hdims]

theorem instruction?_conv (htype : node.opType = "Conv") (hin : node.inputs = [x, w] ++ b.toList)
    (hb : ∀ name ∈ b, name ≠ "") (hout : node.outputs = [y]) :
    graph.instruction? node = some (.convolve x w b y) := by
  rw [instruction?, if_pos htype, hin, hout]
  cases b with
  | none => rfl
  | some name => simp [hb name rfl]

theorem instruction?_reshape {rest : List String} (htype : node.opType = "Reshape")
    (hin : node.inputs = x :: rest) (hout : node.outputs = [y]) :
    graph.instruction? node = some (.copy x y) := by
  rw [instruction?, if_neg (by simp [htype]), if_pos htype, hin, hout]
  rfl

end Target.Graph

/-! ## The simulation -/

/-- What the converted graph holds once some calls have run, where `seen` are the
operands that reshapes among them may have turned back: its values are those of
the source, moved, and what was turned back is there in source order. -/
structure Simulates (s : Scope) (layouts : SortedMap ExplicitLayout)
    (tag : String → Option Layout) (seen defined : List String) (m : Memory Nat)
    (m' : Memory String) : Prop where
  convolved : m'.convolved = m.convolved
  there : ∀ name ∈ defined, (m'.value? name).isSome = true
  holds : ∀ {p : Nat} {name : String} {v' : Value}, s.nameOf? p = some name →
    m'.value? name = some v' →
      ∃ v, m.value? p = some v ∧ s.Fills p v ∧ v' = s.movedValue layouts p v
  turned : ∀ {p : Nat} {name : String}, s.nameOf? p = some name → name ∈ seen →
    (tag name).isSome = true → name ∈ defined ∧ ∃ v, m.value? p = some v ∧
      m'.value? (synthesizedName "Transposed" name) = some v

section Calls

variable {s : Scope} {layouts : SortedMap ExplicitLayout} {tag : String → Option Layout}
  {seen defined defined' : List String} {m : Memory Nat} {m' : Memory String}
  {graph : Target.Graph} {plain : Target.Node} {x w y operand : String} {b shape : Option String}
  {p q r : Nat} {pb : Option Nat} {v : Value} {F G : Nat → Kernel}

/-- What is defined can be read, as the moved value of the source. -/
theorem Simulates.read (h : Simulates s layouts tag seen defined m m')
    (hx : s.Placed layouts tag x p) (hmem : x ∈ defined) :
    ∃ v, m.value? p = some v ∧ s.Fills p v ∧ m'.value? x = some (s.movedValue layouts p v) := by
  obtain ⟨v', hv'⟩ := Option.isSome_iff_exists.mp (h.there x hmem)
  obtain ⟨v, hv, hfill, rfl⟩ := h.holds hx.named hv'
  exact ⟨v, hv, hfill, hv'⟩

theorem Simulates.read_bias (h : Simulates s layouts tag seen defined m m')
    (hb : Option.Rel (s.Placed layouts tag) b pb) (hmem : ∀ name ∈ b, name ∈ defined) :
    ∃ bias : Option (Nat × Value), pb = bias.map Prod.fst ∧
      pb.mapM m.value? = some (bias.map Prod.snd) ∧
      b.mapM m'.value? = some (bias.map fun e => s.movedValue layouts e.1 e.2) ∧
      ∀ e ∈ bias, s.Fills e.1 e.2 := by
  cases hb with
  | none => exact ⟨none, rfl, rfl, rfl, fun _ he => by cases he⟩
  | @some name p hp =>
      obtain ⟨v, hv, hfill, hval⟩ := h.read hp (hmem name rfl)
      refine ⟨some (p, v), rfl, by simp [hv], by simp [hval], fun e he => ?_⟩
      cases he
      exact hfill

/-! ### Writing -/

/-- Both graphs have run one more convolution. -/
theorem Simulates.count (h : Simulates s layouts tag seen defined m m') :
    Simulates s layouts tag seen defined { m with convolved := m.convolved + 1 }
      { m' with convolved := m'.convolved + 1 } :=
  ⟨congrArg (· + 1) h.convolved, h.there, h.holds, h.turned⟩

theorem isSome_store (hthere : ∀ name ∈ defined, (m'.value? name).isSome = true) :
    ∀ name ∈ x :: defined, ((m'.store x v).value? name).isSome = true := by
  intro name hname
  by_cases heq : name = x
  · rw [heq, Memory.value?_store_self]
    rfl
  · rw [Memory.value?_store_of_ne _ heq]
    exact hthere name ((List.mem_cons.mp hname).resolve_left heq)

/-- A call writes its output, which is new. -/
theorem Simulates.store (h : Simulates s layouts tag seen defined m m') (hs : s.Distinct)
    (hnames : s.Unreserved) (hy : s.nameOf? q = some y) (hnew : y ∉ defined)
    (hfill : s.Fills q v) :
    Simulates s layouts tag seen (y :: defined) (m.store q v)
      (m'.store y (s.movedValue layouts q v)) where
  convolved := h.convolved
  there := isSome_store h.there
  holds := by
    intro p name v' hp hval
    by_cases hname : name = y
    · subst hname
      obtain rfl := hs.position_eq hp hy
      rw [Memory.value?_store_self] at hval
      exact ⟨v, Memory.value?_store_self .., hfill, (Option.some.inj hval).symm⟩
    · rw [Memory.value?_store_of_ne _ hname] at hval
      have hne : p ≠ q := fun heq => hname (Option.some.inj (hp.symm.trans (heq ▸ hy)))
      rw [Memory.value?_store_of_ne _ hne]
      exact h.holds hp hval
  turned := by
    intro p name hp hseen htag
    obtain ⟨hmem, hval⟩ := h.turned hp hseen htag
    have hne : p ≠ q := fun heq => hnew (Option.some.inj (hy.symm.trans (heq ▸ hp)) ▸ hmem)
    rw [Memory.value?_store_of_ne _ hne, Memory.value?_store_of_ne _
      (synthesizedName_ne_of_not_reserved (hnames.not_reserved hy) _ _)]
    exact ⟨List.mem_cons_of_mem _ hmem, hval⟩

/-- A value under a name that is made up is no value of the source; one that is
turned back has to be what the source holds. -/
theorem Simulates.storeReserved (h : Simulates s layouts tag seen defined m m')
    (hnames : s.Unreserved) (hx : Reserved x)
    (hback : ∀ {p : Nat} {name : String}, s.nameOf? p = some name →
      synthesizedName "Transposed" name = x → m.value? p = some v) :
    Simulates s layouts tag seen (x :: defined) m (m'.store x v) where
  convolved := h.convolved
  there := isSome_store h.there
  holds := by
    intro p name v' hp hval
    have hne : name ≠ x := fun heq => hnames.not_reserved hp (heq ▸ hx)
    rw [Memory.value?_store_of_ne _ hne] at hval
    exact h.holds hp hval
  turned := by
    intro p name hp hseen htag
    obtain ⟨hmem, hval⟩ := h.turned hp hseen htag
    refine ⟨List.mem_cons_of_mem _ hmem, ?_⟩
    by_cases hname : synthesizedName "Transposed" name = x
    · exact ⟨v, hback hp hname, by rw [hname, Memory.value?_store_self]⟩
    · rwa [Memory.value?_store_of_ne _ hname]

/-- One more operand was turned back, if it has a layout. -/
theorem Simulates.see (h : Simulates s layouts tag seen defined m m') (hs : s.Distinct)
    (hx : s.nameOf? p = some x)
    (hturned : (tag x).isSome = true → x ∈ defined ∧ ∃ v, m.value? p = some v ∧
      m'.value? (synthesizedName "Transposed" x) = some v) :
    Simulates s layouts tag (seen ++ [x]) defined m m' where
  convolved := h.convolved
  there := h.there
  holds := h.holds
  turned := by
    intro p' name hp' hseen htag
    rcases List.mem_append.mp hseen with hseen | hseen
    · exact h.turned hp' hseen htag
    · obtain rfl := List.mem_singleton.mp hseen
      obtain rfl := hs.position_eq hp' hx
      exact hturned htag

/-! ### Reshapes -/

/-- What a reshape reads is there by then. -/
theorem Simulates.mem_of_reads (h : Simulates s layouts tag seen defined m m')
    (hx : s.nameOf? p = some x) (hxne : x ≠ "")
    (hturned : ∀ z ∈ turnedName tag seen x, (x ≠ "" → x ∈ defined) ∧ z ∉ defined)
    (hreads : ∀ v ∈ [readName tag x, operand], v ≠ "" → v ∈ turnedName tag seen x ++ defined) :
    x ∈ defined := by
  by_cases htag : (tag x).isSome = true
  · by_cases hseen : x ∈ seen
    · exact (h.turned hx hseen htag).1
    · exact (hturned _ (mem_turnedName.mpr ⟨htag, hseen, rfl⟩)).1 hxne
  · have hread := hreads _ List.mem_cons_self
    rw [readName, if_neg htag] at hread
    rcases List.mem_append.mp (hread hxne) with hmem | hmem
    · exact absurd (mem_turnedName.mp hmem).1 htag
    · exact hmem

/-- The transpose in front of a reshape makes its operand readable in source
order. -/
theorem Simulates.turnBefore (h : Simulates s layouts tag seen defined m m') (hs : s.Distinct)
    (hnames : s.Unreserved) (hx : s.Placed layouts tag x p) (hmem : x ∈ defined)
    (hdims : ∀ l, tag x = some l →
      graph.extents? x = some (permutedDims l.perm (s.extentsAt p))) :
    ∃ m₁ v, (turnBefore tag seen x).foldlM (graph.execute? G) m' = some m₁ ∧
      m.value? p = some v ∧ s.Fills p v ∧ m₁.value? (readName tag x) = some v ∧
      Simulates s layouts tag (seen ++ [x]) (turnedName tag seen x ++ defined) m m₁ := by
  obtain ⟨v, hv, hfill, hval⟩ := h.read hx hmem
  rw [Relayout.turnBefore, turnedName, readName]
  cases hl : tag x with
  | none =>
      rw [Scope.movedValue_of_none (hx.tagged ▸ hl)] at hval
      refine ⟨m', v, rfl, hv, hfill, hval, h.see hs hx.named fun htag => ?_⟩
      rw [hl] at htag
      cases htag
  | some l =>
      have hlayout : s.layoutAt layouts p = some l := hx.tagged ▸ hl
      dsimp only
      rw [if_pos Option.isSome_some]
      by_cases hseen : x ∈ seen
      · -- an earlier reshape has turned it back
        obtain ⟨-, v₀, hv₀, hturned⟩ := h.turned hx.named hseen (by rw [hl]; rfl)
        obtain rfl := Option.some.inj (hv.symm.trans hv₀)
        rw [if_pos hseen, if_neg fun hboth => hboth.2 hseen]
        exact ⟨m', v, rfl, hv, hfill, hturned,
          h.see hs hx.named fun _ => ⟨hmem, v, hv, hturned⟩⟩
      · rw [if_neg hseen, if_pos ⟨Option.isSome_some, hseen⟩]
        rw [Scope.movedValue_of_some hlayout] at hval
        have hback : transposed l.inverse.perm (permutedDims l.perm (s.extentsAt p))
            (transposed l.perm (s.extentsAt p) v) = v :=
          Layout.transposed_inverse (hx.ranked l hlayout) hfill
        have hstore := h.storeReserved (v := v) hnames (reserved_synthesizedName "Transposed" x)
          fun hp hname => by
            obtain rfl := hs.position_eq (synthesizedName_injective hname ▸ hp) hx.named
            exact hv
        refine ⟨m'.store (synthesizedName "Transposed" x) v, v, ?_, hv, hfill,
          Memory.value?_store_self .., hstore.see hs hx.named fun _ =>
            ⟨List.mem_cons_of_mem _ hmem, v, hv, Memory.value?_store_self ..⟩⟩
        rw [List.foldlM_cons, Target.Graph.execute?,
          Target.Graph.instruction?_turnNode l.inverse.perm_lt (hdims l hl)]
        simp [Instruction.execute?, hval, hback]

/-- What a reshape copies ends up moved, by the transpose behind the reshape. -/
theorem Simulates.copy (h : Simulates s layouts tag seen defined m m') (hs : s.Distinct)
    (hnames : s.Unreserved) (hy : s.Placed layouts tag y q) (hnew : y ∉ defined)
    (hread : m'.value? x = some v) (hfill : s.Fills q v)
    (hnode : graph.instruction? plain = some (.copy x (writtenName tag y)))
    (hdims : ∀ l, tag y = some l →
      graph.extents? (synthesizedName "ToTranspose" y) = some (s.extentsAt q)) :
    ∃ m₁, (plain :: turnAfter tag y).foldlM (graph.execute? G) m' = some m₁ ∧
      Simulates s layouts tag seen (restoredName tag y ++ writtenName tag y :: defined)
        (m.store q v) m₁ := by
  rw [turnAfter, restoredName]
  rw [writtenName] at hnode ⊢
  cases hl : tag y with
  | none =>
      rw [hl] at hnode
      refine ⟨m'.store y v, ?_, ?_⟩
      · rw [List.foldlM_cons, Target.Graph.execute?, hnode]
        simp [Instruction.execute?, hread]
      · have hstore := h.store hs hnames hy.named hnew hfill
        rwa [Scope.movedValue_of_none (hy.tagged ▸ hl)] at hstore
  | some l =>
      rw [hl] at hnode
      have hlayout : s.layoutAt layouts q = some l := hy.tagged ▸ hl
      have hne := synthesizedName_ne_of_not_reserved (hnames.not_reserved hy.named) "ToTranspose" y
      have hstore := h.storeReserved (v := v) hnames (reserved_synthesizedName "ToTranspose" y)
        fun _ hname => absurd hname (synthesizedName_transposed_ne_toTranspose _ _)
      refine ⟨(m'.store (synthesizedName "ToTranspose" y) v).store y (s.movedValue layouts q v), ?_,
        hstore.store hs hnames hy.named (fun hmem => ?_) hfill⟩
      · rw [Scope.movedValue_of_some hlayout]
        dsimp only
        rw [List.foldlM_cons, Target.Graph.execute?, hnode, Option.bind_some]
        simp [Instruction.execute?, hread, Target.Graph.execute?,
          Target.Graph.instruction?_turnNode l.perm_lt (hdims l hl)]
      · exact (List.mem_cons.mp hmem).elim (fun heq => hne heq.symm) hnew

/-- The block of a reshape does what the reshape does. -/
theorem Simulates.reshape (h : Simulates s layouts tag seen defined m m') (hs : s.Distinct)
    (hnames : s.Unreserved) (hx : s.Placed layouts tag x p) (hy : s.Placed layouts tag y q)
    (hxne : x ≠ "") (hcount : elementCount (s.extentsAt p) = elementCount (s.extentsAt q))
    (hbefore : ∀ l, tag x = some l →
      graph.extents? x = some (permutedDims l.perm (s.extentsAt p)))
    (hafter : ∀ l, tag y = some l →
      graph.extents? (synthesizedName "ToTranspose" y) = some (s.extentsAt q))
    (htype : plain.opType = "Reshape") (hin : plain.inputs = [x, operand])
    (hout : plain.outputs = [y])
    (hcheck : checkNodes defined ((Call.reshape x shape y).block tag seen plain) = .ok defined') :
    ∃ m₁ m₁', (Instruction.copy p q).execute? F m = some m₁ ∧
      ((Call.reshape x shape y).block tag seen plain).foldlM (graph.execute? G) m' = some m₁' ∧
      m₁.convolved = m.convolved ∧
      Simulates s layouts tag (seen ++ [x]) defined' m₁ m₁' := by
  obtain ⟨hturned, hreads, -, hnew, hrestored, rfl⟩ :=
    (checkNodes_reshape (by rw [htype]; decide) hin hout).mp hcheck
  have hynew : y ∉ turnedName tag seen x ++ defined := by
    by_cases htag : (tag y).isSome = true
    · have := (hrestored y (mem_restoredName.mpr ⟨htag, rfl⟩)).2
      exact fun hmem => this (List.mem_cons_of_mem _ hmem)
    · rwa [writtenName, if_neg htag] at hnew
  have hplain : graph.instruction? { plain with
      inputs := plain.inputs.set 0 (readName tag x)
      outputs := plain.outputs.set 0 (writtenName tag y) } =
        some (.copy (readName tag x) (writtenName tag y)) :=
    Target.Graph.instruction?_reshape htype (by rw [hin]; rfl) (by rw [hout]; rfl)
  obtain ⟨m₁, v, hrun, hv, hfill, hread, h₁⟩ := h.turnBefore (G := G) hs hnames hx
    (h.mem_of_reads hx.named hxne hturned hreads) hbefore
  obtain ⟨m₂, hrun₂, h₂⟩ := h₁.copy (G := G) hs hnames hy hynew hread (hfill.trans hcount) hplain
    hafter
  refine ⟨m.store q v, m₂, by simp [Instruction.execute?, hv], ?_, rfl, h₂⟩
  rw [Call.block, List.append_assoc, List.foldlM_append, hrun]
  exact hrun₂

/-! ### Convolutions -/

/-- A convolution was written for the target order. -/
theorem Simulates.conv (h : Simulates s layouts tag seen defined m m') (hs : s.Distinct)
    (hnames : s.Unreserved) (hx : s.Placed layouts tag x p) (hw : s.Placed layouts tag w r)
    (hb : Option.Rel (s.Placed layouts tag) b pb) (hy : s.Placed layouts tag y q)
    (hnamed : ∀ name ∈ [x, w] ++ b.toList, name ≠ "")
    (hxl : s.layoutAt layouts p = some .activation) (hwl : s.layoutAt layouts r = some .weights)
    (hyl : s.layoutAt layouts q = some .activation) (hcarries : s.Carries layouts F G)
    (hnumber : s.convolution? m.convolved = some (.convolve p r pb q))
    (htype : plain.opType = "Conv") (hin : plain.inputs = [x, w] ++ b.toList)
    (hout : plain.outputs = [y])
    (hcheck : checkNodes defined ((Call.conv x w b y).block tag seen plain) = .ok defined') :
    ∃ m₁ m₁', (Instruction.convolve p r pb q).execute? F m = some m₁ ∧
      ((Call.conv x w b y).block tag seen plain).foldlM (graph.execute? G) m' = some m₁' ∧
      m₁.convolved = m.convolved + 1 ∧ Simulates s layouts tag seen defined' m₁ m₁' := by
  obtain ⟨hreads, -, hynew, rfl⟩ := (checkNodes_conv (by rw [htype]; decide) hout).mp hcheck
  have hmem : ∀ name ∈ [x, w] ++ b.toList, name ∈ defined := fun name hname =>
    hreads name (hin ▸ hname) (hnamed name hname)
  have hbias : ∀ name ∈ b, name ∈ [x, w] ++ b.toList := fun name hname => by
    simp [Option.mem_def.mp hname]
  obtain ⟨vx, hvx, hfillx, hvalx⟩ := h.read hx (hmem x (by simp))
  obtain ⟨vw, hvw, hfillw, hvalw⟩ := h.read hw (hmem w (by simp))
  obtain ⟨bias, rfl, hvb, hvalb, hfillb⟩ :=
    h.read_bias hb fun name hname => hmem name (hbias name hname)
  have hkernel := hcarries.commutes hnumber hfillx hfillw hfillb
  rw [← Scope.movedValue_of_some hxl, ← Scope.movedValue_of_some hwl,
    ← Scope.movedValue_of_some hyl] at hkernel
  have hstore := h.store hs hnames hy.named hynew
    (hcarries.fills hnumber hfillx hfillw hfillb)
  refine ⟨_, _, by simp [Instruction.execute?, hvx, hvw, hvb], ?_, rfl, hstore.count⟩
  rw [Call.block, List.foldlM_cons, Target.Graph.execute?, Target.Graph.instruction?_conv htype hin
    (fun name hname => hnamed name (hbias name hname)) hout]
  simp [Instruction.execute?, hvalx, hvalw, hvalb, h.convolved, hkernel]

end Calls

end Relayout
