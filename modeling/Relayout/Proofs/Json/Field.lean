/-
# Typed values are read back from JSON

`Mirrors` is the law of a writer and a reader of one type: what is written can
be printed, the values that are `Kept` are read back, and the values that are
`Lost` are written as something that the reader refuses.  Only floats are ever
lost, so the law of a composite says which of its parts decide: all parts of a
kept list are kept, and one lost part makes the whole unreadable.
-/
import Relayout.Json.Word
import Relayout.Proofs.Json.RoundTrip

namespace Relayout

theorem Numeral.toInt?_ofInt (i : Int) : (Numeral.ofInt i).toInt? = some i := by
  by_cases hneg : i < 0
  · have hsign : decide (i < 0) = true := decide_eq_true hneg
    have hzero : (i.natAbs == 0) = false := beq_false_of_ne (by omega)
    have hvalue : -(i.natAbs : Int) = i := by omega
    simp only [toInt?, ofInt, isIntegral, hsign, hzero]
    exact congrArg some hvalue
  · have hsign : decide (i < 0) = false := decide_eq_false hneg
    have hvalue : (i.natAbs : Int) = i := by omega
    simp only [toInt?, ofInt, isIntegral, hsign]
    simpa using hvalue

namespace Json

variable {α β : Type}

/-! ## Lists -/

theorem mapM_map_eq_some {write : α → β} {read : β → Option α} {as : List α}
    (h : ∀ a ∈ as, read (write a) = some a) : (as.map write).mapM read = some as := by
  induction as with
  | nil => rfl
  | cons a as ih =>
      obtain ⟨ha, has⟩ := List.forall_mem_cons.mp h
      rw [List.map_cons, List.mapM_cons, ha, ih has]
      rfl

theorem mapM_eq_none {read : β → Option α} {bs : List β} (h : ∃ b ∈ bs, read b = none) :
    bs.mapM read = none := by
  obtain ⟨b, hb, hnone⟩ := h
  induction bs with
  | nil => cases hb
  | cons b' bs ih =>
      rw [List.mapM_cons]
      rcases List.mem_cons.mp hb with rfl | hb
      · rw [hnone]
        rfl
      · rw [ih hb]
        cases read b' <;> rfl

/-! ## What can be printed -/

theorem plain_ofString (s : String) : (ofString s).Plain := .text s

theorem plain_ofInt (i : Int) : (ofInt i).Plain := .number _

theorem plain_ofFields {fields : List (String × Json)} (h : ∀ f ∈ fields, f.2.Plain) :
    (ofFields fields).Plain := by
  refine .object (fun m hm => ?_) fun m hm => ?_
  · obtain ⟨f, -, rfl⟩ := List.mem_map.mp hm
    exact ⟨f.1, rfl⟩
  · obtain ⟨f, hf, rfl⟩ := List.mem_map.mp hm
    exact h f hf

theorem plain_map {write : α → Json} {as : List α} (h : ∀ a, (write a).Plain) :
    (array (as.map write)).Plain := by
  refine .array fun v hv => ?_
  obtain ⟨a, -, rfl⟩ := List.mem_map.mp hv
  exact h a

/-! ## Writers and readers -/

/-- What is written can be printed; a kept value is read back, and a lost one
is refused. -/
structure Mirrors (write : α → Json) (read : Json → Option α) (Kept Lost : α → Prop) : Prop where
  plain : ∀ a, (write a).Plain
  read_back : ∀ {a}, Kept a → read (write a) = some a
  read_none : ∀ {a}, Lost a → read (write a) = none

section Mirrors

variable {write : α → Json} {read : Json → Option α} {Kept Lost : α → Prop}

/-- A type whose values are all kept. -/
theorem Mirrors.of_forall (hplain : ∀ a, (write a).Plain) (h : ∀ a, read (write a) = some a) :
    Mirrors write read (fun _ => True) fun _ => False :=
  ⟨hplain, fun _ => h _, False.elim⟩

theorem Mirrors.congr {Kept' Lost' : α → Prop} (h : Mirrors write read Kept Lost)
    (hkept : ∀ a, Kept' a → Kept a) (hlost : ∀ a, Lost' a → Lost a) :
    Mirrors write read Kept' Lost' :=
  ⟨h.plain, fun ha => h.read_back (hkept _ ha), fun ha => h.read_none (hlost _ ha)⟩

theorem Mirrors.list (h : Mirrors write read Kept Lost) :
    Mirrors (fun as => .array (as.map write)) (toListOf? read) (fun as => ∀ a ∈ as, Kept a)
      fun as => ∃ a ∈ as, Lost a where
  plain _ := plain_map h.plain
  read_back hkept := mapM_map_eq_some fun a ha => h.read_back (hkept a ha)
  read_none := by
    rintro as ⟨a, ha, hlost⟩
    exact mapM_eq_none ⟨_, List.mem_map_of_mem ha, h.read_none hlost⟩

theorem Mirrors.option (h : Mirrors write read Kept Lost) (hnull : ∀ a, write a ≠ .null) :
    Mirrors (fun o => (o.map write).getD .null) (toOptionOf? read) (fun o => ∀ a ∈ o, Kept a)
      fun o => ∃ a ∈ o, Lost a where
  plain o := by
    cases o with
    | none => exact .null
    | some a => exact h.plain a
  read_back {o} hkept := by
    cases o with
    | none => rfl
    | some a =>
        rw [Option.map_some, Option.getD_some, toOptionOf?, h.read_back (hkept a rfl)]
        · rfl
        · exact hnull a
  read_none := by
    rintro o ⟨a, ha, hlost⟩
    cases ha
    rw [Option.map_some, Option.getD_some, toOptionOf?, h.read_none hlost]
    · rfl
    · exact hnull a

/-- The entries of a map, in order. -/
theorem Mirrors.entries (h : Mirrors write read Kept Lost) :
    Mirrors (fun entries => .ofFields (entries.map fun (key, a) => (key, write a)))
      (toEntriesOf? read) (fun entries => ∀ e ∈ entries, Kept e.2)
      fun entries => ∃ e ∈ entries, Lost e.2 where
  plain entries := by
    refine plain_ofFields fun f hf => ?_
    obtain ⟨e, -, rfl⟩ := List.mem_map.mp hf
    exact h.plain e.2
  read_back {entries} hkept := by
    rw [ofFields, List.map_map, toEntriesOf?]
    refine mapM_map_eq_some fun e he => ?_
    have hvalue := h.read_back (hkept e he)
    simp [hvalue]
  read_none := by
    rintro entries ⟨e, he, hlost⟩
    have hvalue := h.read_none hlost
    rw [ofFields, List.map_map, toEntriesOf?]
    refine mapM_eq_none ⟨_, List.mem_map_of_mem he, ?_⟩
    simp [hvalue]

end Mirrors

/-! ## Texts, integers and truth values -/

theorem text_mirrors : Mirrors ofString toText? (fun _ => True) fun _ => False :=
  .of_forall plain_ofString fun _ => rfl

theorem toIntIn?_ofInt {lo hi i : Int} (h : lo ≤ i ∧ i ≤ hi) :
    (ofInt i).toIntIn? lo hi = some i := by
  rw [ofInt, toIntIn?, Numeral.toInt?_ofInt, Option.filter_some, if_pos (decide_eq_true h)]

theorem toUnsigned?_ofInt {width : Nat} (b : BitVec width) :
    (ofInt b.toNat).toUnsigned? width = some b.toNat := by
  have hlt : (b.toNat : Int) < 2 ^ width := by exact_mod_cast b.isLt
  rw [toUnsigned?, toIntIn?_ofInt ⟨by omega, by omega⟩]
  rfl

theorem toSigned?_ofInt {width : Nat} (b : BitVec width) :
    (ofInt b.toInt).toSigned? width = some b.toInt := by
  have hlo := b.le_toInt
  have hhi := b.toInt_lt
  exact toIntIn?_ofInt ⟨hlo, by omega⟩

theorem int64_mirrors :
    Mirrors (fun i : Int64 => ofInt i.toInt) toInt64? (fun _ => True) fun _ => False := by
  refine .of_forall (fun _ => plain_ofInt _) fun i => ?_
  rw [toInt64?, ← Int64.toInt_toBitVec, toSigned?_ofInt, Option.map_some, Int64.toInt_toBitVec,
    Int64.ofInt_toInt]

/-! ## Records -/

theorem Record.find?_cons_self (named : Bool) (name : String) (v : Json)
    (fields : List (String × Json)) : Record.find? ⟨named, (name, v) :: fields⟩ name = some v := by
  simp [Record.find?]

theorem Record.find?_cons_of_ne {key name : String} (h : key ≠ name) (named : Bool) (v : Json)
    (fields : List (String × Json)) :
    Record.find? ⟨named, (key, v) :: fields⟩ name = Record.find? ⟨named, fields⟩ name := by
  simp [Record.find?, h]

/-- A record is read from the object of its fields, all of them given. -/
theorem toRecord?_ofFields {names : List String} {fields : List (String × Json)}
    (hnames : fields.map Prod.fst = names) (hn : names.Nodup) :
    (ofFields fields).toRecord? names = some ⟨true, fields⟩ := by
  have hmembers : (fields.map fun f => (some f.1, f.2)).mapM
      (fun m => m.1.map fun name => (name, m.2)) = some fields :=
    mapM_map_eq_some fun f _ => rfl
  have hknown : fields.filter (fun f => names.contains f.1) = fields := by
    refine List.filter_eq_self.mpr fun f hf => ?_
    rw [← hnames]
    exact List.contains_iff_mem.mpr (List.mem_map_of_mem hf)
  have hdistinct : (fields.map Prod.fst).Nodup := hnames ▸ hn
  change (List.mapM _ _ >>= fun members => if ((members.filter _).map Prod.fst).Nodup
    then some (Record.mk true (members.filter _)) else none) = _
  rw [hmembers, Option.bind_eq_bind, Option.bind_some, hknown, if_pos hdistinct]

end Json

end Relayout
