/-
# Ranks lifted one after another

A lift is asked for by a slot, but its tensors are found by the name of the
operand: whoever lifts the same operand again, to whatever rank and layout, gets
the tensor and the shape of the first lift, writes the tensor with a reshape of
its own, and overwrites its shape and layout, while the shape operand stays what
it was.  `Lifted` says this of any number of lifts in any order.  The tensor and
the shape of an operand that was lifted once are those of the one call.
-/
import Relayout.Proofs.Graph.Leaving
import Relayout.Proofs.Graph.Redirection

namespace Relayout

/-- The name of a lifted tensor. -/
abbrev liftedName (subject : String) : String := synthesizedName "Reshape" subject

/-- The name of the shape that a tensor is lifted to. -/
abbrev liftedShapeName (subject : String) : String := synthesizedName "Vector" (liftedName subject)

namespace Graph

variable {g k k' : Graph} {id reader : OpId} {slot i j : Nat} {operand values lifted x : TensorId}
  {o : Operator} {t u u' : Tensor} {l : Layout} {name owner : String}

/-! ## Names -/

theorem keeps_withVector (g : Graph) (owner : String) (values : List Int) :
    g.Keeps (g.withVector owner values).2 := by
  unfold withVector
  split
  · exact .refl g
  · exact keeps_of_append rfl

theorem nameOf?_withVector (hg : g.Named) (owner : String) (values : List Int) :
    (g.withVector owner values).2.nameOf? (g.withVector owner values).1 =
      some (synthesizedName "Vector" owner) := by
  cases hlookup : g.lookup? (synthesizedName "Vector" owner) with
  | some e =>
      obtain ⟨u, hu, hname⟩ := lookup?_eq_some hg hlookup
      rw [withVector, hlookup]
      simp only [nameOf?, hu, Option.map_some, hname]
  | none =>
      rw [withVector, hlookup]
      simp [nameOf?, constant, Tensor.fresh]

theorem keeps_rankLifted (g : Graph) (reader : OpId) (operand : TensorId) (t : Tensor)
    (l : Layout) : g.Keeps (g.rankLifted reader operand t l) :=
  ((keeps_withDerived g t _).trans (keeps_withVector _ _ _)).of_names
    (names_rankLifted g reader operand t l)

theorem nameOf?_rankLifted (hg : g.Named) (reader : OpId) (operand : TensorId) (t : Tensor)
    (l : Layout) :
    (g.rankLifted reader operand t l).nameOf? (g.liftTargets t l).1 = some (liftedName t.name) ∧
      (g.rankLifted reader operand t l).nameOf? (g.liftTargets t l).2.1 =
        some (liftedShapeName t.name) := by
  rw [nameOf?_eq, nameOf?_eq, names_rankLifted, ← nameOf?_eq, ← nameOf?_eq]
  exact ⟨keeps_withVector _ _ _ _ _ (nameOf?_withDerived hg t _),
    nameOf?_withVector (named_withDerived hg t _) _ _⟩

/-! ## Tensors of a lifted graph -/

theorem getElem?_liftedBefore (hj : (g.liftedBefore reader operand values lifted name).tensors[j]? =
    some u') : ∃ u, g.tensors[j]? = some u ∧ u'.bare = u.bare ∧
      u'.producers = if lifted.index = j then attach ⟨g.ops.length⟩ u.producers
        else u.producers := by
  rw [liftedBefore, List.getElem?_modify, List.getElem?_modify, List.getElem?_modify] at hj
  cases hu : g.tensors[j]? with
  | none =>
      rw [hu] at hj
      cases hj
  | some u =>
      rw [hu] at hj
      obtain rfl := Option.some.inj hj
      refine ⟨u, rfl, ?_, ?_⟩
      · dsimp only
        split <;> split <;> split <;> rfl
      · dsimp only
        split <;> split <;> split <;> rfl

/-- Where a tensor of a graph with a lift of `t` comes from, up to its
consumers: it was there, it was there and is what `t` is lifted to, or it is
new. -/
inductive LiftOrigin (g : Graph) (t : Tensor) (l : Layout) (j : Nat) (u' : Tensor) : Prop where
  | kept (u : Tensor) : g.tensors[j]? = some u → u.name ≠ liftedName t.name → u'.bare = u.bare →
      u'.producers = u.producers → LiftOrigin g t l j u'
  | again (u : Tensor) : g.tensors[j]? = some u → u.name = liftedName t.name →
      u'.bare = (u.completed (widened l.rank t.shape) l).bare →
      u'.producers = attach ⟨g.ops.length⟩ u.producers → LiftOrigin g t l j u'
  | lifted : g.lookup? (liftedName t.name) = none →
      u'.bare = ((t.derived (liftedName t.name) ⟨j⟩).completed (widened l.rank t.shape) l).bare →
      u'.producers = [⟨g.ops.length⟩] → LiftOrigin g t l j u'
  | shape : u'.bare = (constant (liftedShapeName t.name) [(widened l.rank t.shape).length]
      (.ofInts .int64 ((widened l.rank t.shape).map Int.ofNat)) ⟨j⟩).bare →
      LiftOrigin g t l j u'

theorem liftOrigin_of_getElem? (hg : g.Named)
    (hj : (g.rankLifted reader operand t l).tensors[j]? = some u') : g.LiftOrigin t l j u' := by
  obtain ⟨v, hv, hbare, hproducers⟩ := getElem?_liftedBefore hj
  rw [liftTargets_ops] at hproducers
  obtain ⟨u, hu, rfl⟩ | ⟨hnone, hindex, rfl⟩ | ⟨hindex, rfl⟩ := liftTargets_cases hg hv
  · have hlt := (List.getElem?_eq_some_iff.mp hu).1
    have hiff : (g.liftTargets t l).1.index = j ↔
        g.lookup? (liftedName t.name) = some ⟨j⟩ := withDerived_index_iff t _ hlt
    by_cases hlookup : g.lookup? (liftedName t.name) = some ⟨j⟩
    · obtain ⟨w, hw, hname⟩ := lookup?_eq_some hg hlookup
      obtain rfl := Option.some.inj (hu.symm.trans hw)
      rw [if_pos hlookup] at hbare hproducers
      rw [if_pos (hiff.mpr hlookup)] at hproducers
      exact .again u hu hname hbare hproducers
    · rw [if_neg hlookup] at hbare hproducers
      rw [if_neg fun h => hlookup (hiff.mp h)] at hproducers
      refine .kept u hu (fun hname => hlookup ?_) hbare hproducers
      rw [← hname]
      exact lookup?_of_name hg hu
  · rw [hindex, if_pos rfl] at hproducers
    exact .lifted hnone hbare hproducers
  · exact .shape hbare

/-! ## Lifts -/

/-- One call that lifted an operand. -/
structure Lift where
  operand : TensorId
  /-- The name of the operand. -/
  subject : String
  /-- What the operand was lifted by. -/
  reshape : OpId
  layout : Layout
  /-- The shape that the operand was lifted to. -/
  shape : List Nat
  rank_shape : shape.length = layout.rank

/-- The lifts of one operand, by its name. -/
def liftsOf (done : List Lift) (subject : String) : List Lift :=
  done.filter fun e => e.subject = subject

/-- What is true of a tensor after some lifts: if it is what an operand was
lifted to, all lifts of this operand write it, and if it was only one it has the
shape and the layout of this lift; and so has the shape operand. -/
structure LiftedTensor (done : List Lift) (u : Tensor) : Prop where
  runtime : ∀ n, u.name = liftedName n → u.data = none
  producers : ∀ n, u.name = liftedName n →
    liftsOf done n ≠ [] ∧ u.producers = (liftsOf done n).map Lift.reshape
  sole : ∀ n e, u.name = liftedName n → liftsOf done n = [e] →
    u.shape = e.shape ∧ u.layout = some e.layout
  unmoved : ∀ n, u.name = liftedShapeName n → liftsOf done n ≠ [] ∧ u.layout = none
  values : ∀ n e, u.name = liftedShapeName n → liftsOf done n = [e] →
    u.data = some (.ofInts .int64 (e.shape.map Int.ofNat))

/-- The reshape of a lift: it writes what its operand was lifted to, and its
second slot holds the shape, or what this was lifted to itself. -/
structure LiftedBy (k : Graph) (e : Lift) : Prop where
  operand : k.nameOf? e.operand = some e.subject
  shape : ∃ v, k.nameOf? v = some (liftedShapeName e.subject)
  op : ∃ o y w, k.ops[e.reshape.index]? = some o ∧ o.kind = .reshape true ∧ o.outputs = [y] ∧
    k.nameOf? y = some (liftedName e.subject) ∧ o.inputs[1]? = some w ∧
      (k.nameOf? w = some (liftedShapeName e.subject) ∨ ∃ n, k.nameOf? w = some (liftedName n))

/-- A graph after some lifts. -/
structure Lifted (done : List Lift) (k : Graph) : Prop where
  named : k.Named
  unmoved : k.Unmoved
  nodup : (done.map Lift.reshape).Nodup
  lifts : ∀ e ∈ done, k.LiftedBy e
  only : ∀ {j : Nat} {o : Operator}, k.ops[j]? = some o → o.kind = .reshape true →
    ∃ e ∈ done, e.reshape = ⟨j⟩
  tensors : ∀ u ∈ k.tensors, LiftedTensor done u

section Lifts

variable {done : List Lift} {e : Lift} {subject : String}

theorem mem_liftsOf : e ∈ liftsOf done subject ↔ e ∈ done ∧ e.subject = subject := by
  simp [liftsOf]

theorem liftsOf_concat_self (done : List Lift) (e : Lift) :
    liftsOf (done ++ [e]) e.subject = liftsOf done e.subject ++ [e] := by
  simp [liftsOf]

theorem liftsOf_concat_of_ne (done : List Lift) (h : subject ≠ e.subject) :
    liftsOf (done ++ [e]) subject = liftsOf done subject := by
  simp [liftsOf, h.symm]

theorem liftsOf_concat_ne_nil (h : liftsOf done subject ≠ []) (e : Lift) :
    liftsOf (done ++ [e]) subject ≠ [] := by
  rw [liftsOf, List.filter_append]
  exact List.append_ne_nil_of_left_ne_nil h _

/-- A lift that is the only one of its operand has none before it. -/
theorem eq_of_liftsOf_concat {e' : Lift} (h : liftsOf (done ++ [e]) e.subject = [e']) :
    liftsOf done e.subject = [] ∧ e = e' := by
  rw [liftsOf_concat_self] at h
  cases hbefore : liftsOf done e.subject with
  | nil =>
      rw [hbefore] at h
      exact ⟨rfl, List.singleton_inj.mp h⟩
  | cons _ _ =>
      rw [hbefore] at h
      simp at h

theorem LiftedBy.lt (h : k.LiftedBy e) : e.reshape.index < k.ops.length := by
  obtain ⟨o, -, -, ho, -⟩ := h.op
  exact (List.getElem?_eq_some_iff.mp ho).1

theorem Lifted.fresh (h : Lifted done k) (subject : String) :
    (⟨k.ops.length⟩ : OpId) ∉ (liftsOf done subject).map Lift.reshape := by
  intro hmem
  obtain ⟨e, he, heq⟩ := List.mem_map.mp hmem
  have := (h.lifts e (mem_liftsOf.mp he).1).lt
  rw [heq] at this
  exact Nat.lt_irrefl _ this

/-- The tensor that an operand was lifted to is there. -/
theorem Lifted.liftsOf_eq_nil (h : Lifted done k) (hfree : k.lookup? (liftedName subject) = none) :
    liftsOf done subject = [] := by
  refine List.eq_nil_iff_forall_not_mem.mpr fun e he => ?_
  obtain ⟨hdone, rfl⟩ := mem_liftsOf.mp he
  obtain ⟨-, y, -, -, -, -, hy, -⟩ := (h.lifts e hdone).op
  obtain ⟨u, hu, hname⟩ := Option.map_eq_some_iff.mp hy
  exact (lookup?_eq_none h.named).mp hfree u (List.mem_of_getElem? hu) hname

end Lifts

/-! ## One more lift -/

section Step

variable {done : List Lift} {e : Lift}

/-- A tensor that a lift of another operand leaves is as before. -/
theorem LiftedTensor.kept (h : LiftedTensor done u) (hother : u.name ≠ liftedName e.subject)
    (hbare : u'.bare = u.bare) (hproducers : u'.producers = u.producers) :
    LiftedTensor (done ++ [e]) u' := by
  have hname : u'.name = u.name := (congrArg Tensor.name hbare :)
  have hshape : u'.shape = u.shape := (congrArg Tensor.shape hbare :)
  have hlayout : u'.layout = u.layout := (congrArg Tensor.layout hbare :)
  have hdata : u'.data = u.data := (congrArg Tensor.data hbare :)
  have hsame : ∀ n, u.name = liftedName n → liftsOf (done ++ [e]) n = liftsOf done n :=
    fun n hn => liftsOf_concat_of_ne done fun heq => hother (heq ▸ hn)
  refine ⟨fun n hn => ?_, fun n hn => ?_, fun n e' hn hsole => ?_, fun n hn => ?_,
    fun n e' hn hsole => ?_⟩
  · exact hdata.trans (h.runtime n (hname ▸ hn))
  · rw [hname] at hn
    rw [hsame n hn, hproducers]
    exact h.producers n hn
  · rw [hname] at hn
    rw [hsame n hn] at hsole
    rw [hshape, hlayout]
    exact h.sole n e' hn hsole
  · rw [hname] at hn
    obtain ⟨hne, hnone⟩ := h.unmoved n hn
    exact ⟨liftsOf_concat_ne_nil hne e, hlayout.trans hnone⟩
  · rw [hname] at hn
    by_cases hself : n = e.subject
    · subst hself
      exact absurd (eq_of_liftsOf_concat hsole).1 (h.unmoved _ hn).1
    · rw [liftsOf_concat_of_ne done hself] at hsole
      exact hdata.trans (h.values n e' hn hsole)

/-- What the operand was lifted to, after one more lift. -/
theorem LiftedTensor.of_liftedName (hname : u'.name = liftedName e.subject) (hdata : u'.data = none)
    (hproducers : u'.producers = (liftsOf done e.subject).map Lift.reshape ++ [e.reshape])
    (hsole : liftsOf done e.subject = [] → u'.shape = e.shape ∧ u'.layout = some e.layout) :
    LiftedTensor (done ++ [e]) u' := by
  have hself : ∀ n, u'.name = liftedName n → n = e.subject := fun n hn =>
    synthesizedName_injective (hn.symm.trans hname)
  have hother : ∀ n, u'.name ≠ liftedShapeName n := fun n hn =>
    synthesizedName_reshape_ne_vector _ _ (hname.symm.trans hn)
  refine ⟨fun _ _ => hdata, fun n hn => ?_, fun n e' hn h => ?_, fun n hn => absurd hn (hother n),
    fun n _ hn => absurd hn (hother n)⟩
  · rw [hself n hn, liftsOf_concat_self, List.map_append]
    exact ⟨by simp, hproducers⟩
  · rw [hself n hn] at h
    obtain ⟨hnone, rfl⟩ := eq_of_liftsOf_concat h
    exact hsole hnone

/-- The shape that the operand was lifted to, if it is new. -/
theorem LiftedTensor.of_shapeName (hname : u'.name = liftedShapeName e.subject)
    (hlayout : u'.layout = none)
    (hdata : u'.data = some (.ofInts .int64 (e.shape.map Int.ofNat))) :
    LiftedTensor (done ++ [e]) u' := by
  have hself : ∀ n, u'.name = liftedShapeName n → n = e.subject := fun n hn =>
    synthesizedName_injective (synthesizedName_injective (hn.symm.trans hname))
  have hother : ∀ n, u'.name ≠ liftedName n := fun n hn =>
    synthesizedName_reshape_ne_vector _ _ (hn.symm.trans hname)
  refine ⟨fun n hn => absurd hn (hother n), fun n hn => absurd hn (hother n),
    fun n _ hn => absurd hn (hother n), fun n hn => ?_, fun n e' hn h => ?_⟩
  · rw [hself n hn, liftsOf_concat_self]
    exact ⟨by simp, hlayout⟩
  · rw [hself n hn] at h
    obtain ⟨-, rfl⟩ := eq_of_liftsOf_concat h
    exact hdata

theorem Lifted.liftedTensor (h : Lifted done k) (hsubject : e.subject = t.name)
    (hreshape : e.reshape = ⟨k.ops.length⟩) (hlayout : e.layout = l)
    (hshape : e.shape = widened l.rank t.shape) (horigin : k.LiftOrigin t l j u') :
    LiftedTensor (done ++ [e]) u' := by
  cases horigin with
  | kept u hu hother hbare hproducers =>
      exact (h.tensors u (List.mem_of_getElem? hu)).kept (hsubject ▸ hother) hbare hproducers
  | again u hu hname hbare hproducers =>
      have hu := h.tensors u (List.mem_of_getElem? hu)
      rw [← hsubject] at hname
      obtain ⟨hne, hlist⟩ := hu.producers _ hname
      have hdata : u'.data = u.data := (congrArg Tensor.data hbare :)
      refine .of_liftedName ?_ (hdata.trans (hu.runtime _ hname)) ?_ fun hnone => absurd hnone hne
      · rw [← hname]
        exact (congrArg Tensor.name hbare :)
      · rw [hproducers, hlist, attach, if_neg (h.fresh _), hreshape]
  | lifted hfree hbare hproducers =>
      rw [← hsubject] at hfree
      have hname : u'.name = liftedName t.name := (congrArg Tensor.name hbare :)
      refine .of_liftedName (hsubject ▸ hname) ((congrArg Tensor.data hbare :)) ?_
        fun _ => ⟨?_, ?_⟩
      · rw [h.liftsOf_eq_nil hfree, hproducers, hreshape]
        rfl
      · rw [hshape]
        exact (congrArg Tensor.shape hbare :)
      · rw [hlayout]
        exact (congrArg Tensor.layout hbare :)
  | shape hbare =>
      have hname : u'.name = liftedShapeName t.name := (congrArg Tensor.name hbare :)
      refine .of_shapeName (hsubject ▸ hname) ((congrArg Tensor.layout hbare :)) ?_
      rw [hshape]
      exact (congrArg Tensor.data hbare :)

theorem ops_rankLifted (g : Graph) (reader : OpId) (operand : TensorId) (t : Tensor)
    (l : Layout) : (g.rankLifted reader operand t l).ops =
      (g.ops.modify reader.index fun o =>
        (o.redirect operand (g.liftTargets t l).1).addPre ⟨g.ops.length⟩) ++
      [.lift (liftedName t.name) operand (g.liftTargets t l).2.1 (g.liftTargets t l).1] := by
  unfold rankLifted liftedBefore
  dsimp only
  rw [liftTargets_ops]

/-- A reshape that is lifted itself writes what it wrote, and its shape is led
to what this was lifted to, if anywhere. -/
theorem LiftedBy.rankLifted (h : k.LiftedBy e) (hk : k.Named) (id : OpId)
    (operand : TensorId) (t : Tensor) (l : Layout) :
    (k.rankLifted id operand t l).LiftedBy e := by
  have hkeeps := keeps_rankLifted k id operand t l
  obtain ⟨v, hv⟩ := h.shape
  obtain ⟨o, y, w, ho, hkind, houtputs, hy, hw, hshape⟩ := h.op
  refine ⟨hkeeps _ _ h.operand, ⟨v, hkeeps _ _ hv⟩, ?_⟩
  have ho' : (k.rankLifted id operand t l).ops[e.reshape.index]? =
      some (if id.index = e.reshape.index then
        (o.redirect operand (k.liftTargets t l).1).addPre ⟨k.ops.length⟩ else o) := by
    rw [ops_rankLifted, List.getElem?_append_left (by simpa using h.lt), List.getElem?_modify, ho]
    rfl
  have hkept : k.nameOf? w = some (liftedShapeName e.subject) ∨
      (∃ n, k.nameOf? w = some (liftedName n)) →
      (k.rankLifted id operand t l).nameOf? w = some (liftedShapeName e.subject) ∨
        ∃ n, (k.rankLifted id operand t l).nameOf? w = some (liftedName n) :=
    Or.imp (hkeeps _ _) fun ⟨n, hn⟩ => ⟨n, hkeeps _ _ hn⟩
  by_cases hid : id.index = e.reshape.index
  · rw [if_pos hid] at ho'
    by_cases hfirst : o.inputs.idxOf operand = 1
    · have hlt := (List.getElem?_eq_some_iff.mp hw).1
      refine ⟨_, y, (k.liftTargets t l).1, ho', hkind, houtputs, hkeeps _ _ hy, ?_,
        Or.inr ⟨t.name, (nameOf?_rankLifted hk id operand t l).1⟩⟩
      rw [Operator.addPre, Operator.redirect]
      dsimp only
      rw [hfirst, List.getElem?_set_self hlt]
    · refine ⟨_, y, w, ho', hkind, houtputs, hkeeps _ _ hy, ?_, hkept hshape⟩
      rw [Operator.addPre, Operator.redirect]
      dsimp only
      rw [List.getElem?_set_ne hfirst, hw]
  · rw [if_neg hid] at ho'
    exact ⟨o, y, w, ho', hkind, houtputs, hkeeps _ _ hy, hw, hkept hshape⟩

/-- What a lift of `t` is remembered by. -/
def Lift.of (operand : TensorId) (t : Tensor) (reshape : OpId) (l : Layout)
    (h : t.rank < l.rank) : Lift where
  operand := operand
  subject := t.name
  reshape := reshape
  layout := l
  shape := widened l.rank t.shape
  rank_shape := length_widened (Nat.le_of_lt h)

/-- The reshape of a new lift. -/
theorem getElem?_ops_rankLifted (g : Graph) (reader : OpId) (operand : TensorId) (t : Tensor)
    (l : Layout) : (g.rankLifted reader operand t l).ops[g.ops.length]? =
      some (.lift (liftedName t.name) operand (g.liftTargets t l).2.1 (g.liftTargets t l).1) := by
  rw [ops_rankLifted, List.getElem?_append_right (by simp), List.length_modify, Nat.sub_self]
  rfl

theorem liftedBy_new (hk : k.Named) (ht : k.tensors[operand.index]? = some t)
    (hrank : t.rank < l.rank) (id : OpId) : (k.rankLifted id operand t l).LiftedBy
      (.of operand t ⟨k.ops.length⟩ l hrank) := by
  obtain ⟨hlifted, hshape⟩ := nameOf?_rankLifted hk id operand t l
  have hoperand : k.nameOf? operand = some t.name := by
    rw [nameOf?, ht]
    rfl
  refine ⟨keeps_rankLifted k id operand t l _ _ hoperand, ⟨_, hshape⟩,
    .lift (liftedName t.name) operand (k.liftTargets t l).2.1 (k.liftTargets t l).1,
    (k.liftTargets t l).1, (k.liftTargets t l).2.1, getElem?_ops_rankLifted k id operand t l, rfl,
    rfl, hlifted, rfl, Or.inl hshape⟩

theorem Lifted.rankLifted (h : Lifted done k) (ht : k.tensors[operand.index]? = some t)
    (hrank : t.rank < l.rank) (id : OpId) :
    Lifted (done ++ [.of operand t ⟨k.ops.length⟩ l hrank]) (k.rankLifted id operand t l) where
  named := h.named.rankLifted id operand t l
  unmoved := h.unmoved.rankLifted h.named id operand t l
  nodup := by
    rw [List.map_append, List.map_singleton]
    refine List.nodup_append.mpr ⟨h.nodup, List.nodup_singleton _, fun a ha b hb heq => ?_⟩
    obtain ⟨e, he, rfl⟩ := List.mem_map.mp ha
    have hlt := (h.lifts e he).lt
    rw [heq, List.mem_singleton.mp hb] at hlt
    exact Nat.lt_irrefl _ hlt
  lifts := by
    intro e he
    rcases List.mem_append.mp he with he | he
    · exact (h.lifts e he).rankLifted h.named id operand t l
    · obtain rfl := List.mem_singleton.mp he
      exact liftedBy_new h.named ht hrank id
  only := by
    intro j o' ho' hkind
    rw [ops_rankLifted] at ho'
    obtain ⟨o, ho, rfl⟩ | ⟨rfl, -⟩ := getElem?_modify_concat_cases ho'
    · have hkind' : o.kind = .reshape true := by
        split at hkind <;> exact hkind
      obtain ⟨e, he, hreshape⟩ := h.only ho hkind'
      exact ⟨e, List.mem_append_left _ he, hreshape⟩
    · exact ⟨_, List.mem_append_right _ (List.mem_singleton_self _), rfl⟩
  tensors := by
    intro u' hu'
    obtain ⟨j, hj⟩ := List.getElem?_of_mem hu'
    exact h.liftedTensor (e := .of operand t ⟨k.ops.length⟩ l hrank) rfl rfl rfl rfl
      (liftOrigin_of_getElem? h.named hj)

end Step

end Graph

end Relayout
