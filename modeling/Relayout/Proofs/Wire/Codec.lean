/-
# The laws of codecs

A codec is lawful for the values that fit its format when each of them is read
back from the bytes it is written as, whatever follows them, and when a value
that is read fits and is written as the very bytes it was read from.  The
second law is the stronger one: it says that no two byte strings stand for the
same value, and a codec that sorts or forgets what it reads does not have it.

A length is written in eight bytes, so a list of 2⁶⁴ members would be read back
as an empty one.  That bound is part of what fits a list or a text.
-/
import Mathlib.Algebra.Ring.Nat
import Mathlib.Data.List.Nodup
import Relayout.Wire.Codec

namespace Relayout

/-! ## Numbers as bytes -/

namespace Bytes

@[simp] theorem length_ofNat (size n : Nat) : (ofNat size n).length = size := by
  induction size generalizing n with
  | zero => rfl
  | succ size ih => rw [ofNat, List.length_cons, ih]

theorem toNat_lt (bytes : List UInt8) : toNat bytes < 256 ^ bytes.length := by
  induction bytes with
  | nil => exact Nat.one_pos
  | cons b bytes ih =>
      have hb : b.toNat < 256 := b.toNat_lt
      rw [toNat, List.length_cons, Nat.pow_succ]
      omega

theorem toNat_ofNat {size n : Nat} (h : n < 256 ^ size) : toNat (ofNat size n) = n := by
  induction size generalizing n with
  | zero => exact (Nat.lt_one_iff.mp h).symm
  | succ size ih =>
      have hrest : n / 256 < 256 ^ size := by
        rw [Nat.pow_succ] at h
        omega
      have hfirst : (UInt8.ofNat n).toNat = n % 256 := UInt8.toNat_ofNat'
      rw [ofNat, toNat, ih hrest, hfirst]
      omega

theorem ofNat_toNat (bytes : List UInt8) : ofNat bytes.length (toNat bytes) = bytes := by
  induction bytes with
  | nil => rfl
  | cons b bytes ih =>
      have hb : b.toNat < 256 := b.toNat_lt
      have hfirst : UInt8.ofNat (b.toNat + 256 * toNat bytes) = b := by
        refine UInt8.toNat_inj.mp ?_
        rw [UInt8.toNat_ofNat', Nat.add_mul_mod_self_left]
        exact Nat.mod_eq_of_lt hb
      have hrest : (b.toNat + 256 * toNat bytes) / 256 = toNat bytes := by omega
      rw [toNat, List.length_cons, ofNat, hfirst, hrest, ih]

end Bytes

namespace Wire

theorem splitBytes_eq_some {count : Nat} {bytes taken rest : List UInt8} :
    splitBytes count bytes = some (taken, rest) ↔
      taken.length = count ∧ taken ++ rest = bytes := by
  induction count generalizing bytes taken with
  | zero =>
      constructor
      · rintro ⟨⟩
        exact ⟨rfl, rfl⟩
      · rintro ⟨h, rfl⟩
        rw [List.length_eq_zero_iff.mp h]
        rfl
  | succ count ih =>
      cases bytes with
      | nil =>
          refine iff_of_false (fun h => nomatch h) ?_
          rintro ⟨hlen, h⟩
          simp [(List.append_eq_nil_iff.mp h).1] at hlen
      | cons b bytes =>
          simp only [splitBytes, Option.map_eq_some_iff, Prod.mk.injEq, Prod.exists]
          constructor
          · rintro ⟨taken, rest, h, rfl, rfl⟩
            obtain ⟨hlen, happ⟩ := ih.mp h
            exact ⟨congrArg (· + 1) hlen, congrArg (b :: ·) happ⟩
          · rintro ⟨hlen, happ⟩
            cases taken with
            | nil => exact nomatch hlen
            | cons c taken =>
                obtain ⟨rfl, hrest⟩ := List.cons.inj happ
                exact ⟨taken, rest, ih.mpr ⟨Nat.succ.inj hlen, hrest⟩, rfl, rfl⟩

namespace Codec

variable {α β : Type} {P : α → Prop} {Q : β → Prop} {c c' : Codec α} {d : Codec β}

/-- A codec that reads back every value that fits, and reads only what it
would write. -/
structure Lawful (c : Codec α) (Fits : α → Prop) : Prop where
  decode_encode : ∀ {a}, Fits a → ∀ rest, c.decode (c.encode a ++ rest) = some (a, rest)
  encode_decode : ∀ {bytes a rest}, c.decode bytes = some (a, rest) →
    Fits a ∧ c.encode a ++ rest = bytes

@[simp] theorem encode_map (there : α → β) (back : β → α) (b : β) :
    (c.map there back).encode b = c.encode (back b) :=
  rfl

@[simp] theorem decode_map (there : α → β) (back : β → α) (bytes : List UInt8) :
    (c.map there back).decode bytes = (c.decode bytes).map fun p => (there p.1, p.2) :=
  rfl

/-- What fits a format may be said in other words. -/
theorem Lawful.congr {P' : α → Prop} (h : c.Lawful P) (hiff : ∀ a, P a ↔ P' a) :
    c.Lawful P' :=
  funext (fun a => propext (hiff a)) ▸ h

/-! ## One format for another type -/

theorem Lawful.filterMap {there : α → Option β} {back : β → α} (h : c.Lawful P)
    (hback : ∀ b, Q b → P (back b) ∧ there (back b) = some b)
    (hthere : ∀ a b, P a → there a = some b → Q b ∧ back b = a) :
    (c.filterMap there back).Lawful Q where
  decode_encode {b} hb rest := by
    obtain ⟨hfits, hread⟩ := hback b hb
    have hdecode := h.decode_encode hfits rest
    simp [Codec.filterMap, hdecode, hread]
  encode_decode {bytes b rest} hdecode := by
    obtain ⟨⟨a, rest'⟩, ha, hb⟩ := Option.bind_eq_some_iff.mp hdecode
    obtain ⟨b', hread, hpair⟩ := Option.map_eq_some_iff.mp hb
    obtain ⟨rfl, rfl⟩ := Prod.mk.inj hpair
    obtain ⟨hfits, hbytes⟩ := h.encode_decode ha
    obtain ⟨hQ, hback⟩ := hthere a b' hfits hread
    exact ⟨hQ, by rw [← hbytes, ← hback]; rfl⟩

theorem map_eq_filterMap (c : Codec α) (there : α → β) (back : β → α) :
    c.map there back = c.filterMap (fun a => some (there a)) back := by
  refine congrArg (Codec.mk _) (funext fun bytes => ?_)
  cases c.decode bytes <;> rfl

theorem Lawful.map {there : α → β} {back : β → α} (h : c.Lawful P)
    (hback : ∀ b, Q b → P (back b) ∧ there (back b) = b)
    (hthere : ∀ a, P a → Q (there a) ∧ back (there a) = a) : (c.map there back).Lawful Q := by
  rw [map_eq_filterMap]
  refine h.filterMap (fun b hb => ?_) (fun a b ha hb => ?_)
  · exact ⟨(hback b hb).1, congrArg some (hback b hb).2⟩
  · exact Option.some.inj hb ▸ hthere a ha

/-- Two types that list the same parts have one format. -/
theorem Lawful.iso {there : α → β} {back : β → α} (h : c.Lawful P)
    (hback : ∀ b, there (back b) = b) (hthere : ∀ a, back (there a) = a) :
    (c.map there back).Lawful fun b => P (back b) :=
  h.map (fun b hb => ⟨hb, hback b⟩) fun a ha => ⟨(hthere a).symm ▸ ha, hthere a⟩

/-! ## One value after another -/

theorem Lawful.tagged {γ : α → Type} {payload : (a : α) → Codec (γ a)}
    {R : (a : α) → γ a → Prop} (h : c.Lawful P) (hpayload : ∀ a, (payload a).Lawful (R a)) :
    (c.tagged payload).Lawful fun p => P p.1 ∧ R p.1 p.2 where
  decode_encode {p} hp rest := by
    have htag := h.decode_encode hp.1 ((payload p.1).encode p.2 ++ rest)
    have hvalue := (hpayload p.1).decode_encode hp.2 rest
    simp [Codec.tagged, List.append_assoc, htag, hvalue]
  encode_decode {bytes p rest} hdecode := by
    obtain ⟨⟨a, middle⟩, htag, hvalue⟩ := Option.bind_eq_some_iff.mp hdecode
    obtain ⟨⟨x, rest'⟩, hx, hpair⟩ := Option.map_eq_some_iff.mp hvalue
    obtain ⟨rfl, rfl⟩ := Prod.mk.inj hpair
    obtain ⟨hP, hbytes⟩ := h.encode_decode htag
    obtain ⟨hR, hmiddle⟩ := (hpayload a).encode_decode hx
    exact ⟨⟨hP, hR⟩, by rw [← hbytes, ← hmiddle]; exact List.append_assoc _ _ _⟩

theorem pair_eq_tagged (c : Codec α) (d : Codec β) :
    c.pair d = (c.tagged fun _ => d).map (fun p => (p.1, p.2)) fun p => ⟨p.1, p.2⟩ := by
  refine congrArg (Codec.mk _) (funext fun bytes => ?_)
  cases hfirst : c.decode bytes with
  | none => simp [tagged, hfirst]
  | some p => cases hsecond : d.decode p.2 <;> simp [tagged, hfirst, hsecond]

theorem Lawful.pair (h : c.Lawful P) (h' : d.Lawful Q) :
    (c.pair d).Lawful fun p => P p.1 ∧ Q p.2 := by
  rw [pair_eq_tagged]
  exact (h.tagged fun _ => h').iso (fun _ => rfl) fun _ => rfl

/-! ## Numbers -/

theorem natural_lawful (size : Nat) : (natural size).Lawful (· < 256 ^ size) where
  decode_encode {n} hn rest := by
    have hsplit := splitBytes_eq_some.mpr
      ⟨Bytes.length_ofNat size n, rfl (a := Bytes.ofNat size n ++ rest)⟩
    simp [natural, hsplit, Bytes.toNat_ofNat hn]
  encode_decode {bytes n rest} hdecode := by
    obtain ⟨⟨taken, rest'⟩, hsplit, hpair⟩ := Option.map_eq_some_iff.mp hdecode
    obtain ⟨rfl, rfl⟩ := Prod.mk.inj hpair
    obtain ⟨rfl, rfl⟩ := splitBytes_eq_some.mp hsplit
    exact ⟨Bytes.toNat_lt taken, congrArg (· ++ rest') (Bytes.ofNat_toNat taken)⟩

theorem bits_lawful {size width : Nat} (hsize : 256 ^ size = 2 ^ width) :
    (bits size width).Lawful fun _ => True := by
  refine (natural_lawful size).map (fun b _ => ?_) (fun n hn => ⟨trivial, ?_⟩)
  · exact ⟨hsize ▸ b.isLt, by rw [BitVec.ofNat_toNat, BitVec.setWidth_eq]⟩
  · rw [BitVec.toNat_ofNat]
    exact Nat.mod_eq_of_lt (hsize ▸ hn)

theorem int64_lawful : int64.Lawful fun _ => True :=
  (bits_lawful (by decide)).iso (fun _ => rfl) fun _ => rfl

theorem truth_lawful : truth.Lawful fun _ => True := by
  refine (natural_lawful 1).filterMap (fun b _ => ?_) (fun n b _ hread => ⟨trivial, ?_⟩)
  · cases b <;> decide
  · split at hread
    · rename_i hzero
      rw [← Option.some.inj hread, hzero]
      rfl
    · split at hread
      · rename_i hone
        rw [← Option.some.inj hread, hone]
        rfl
      · exact nomatch hread

theorem oneOf_lawful [DecidableEq α] {all : List α} (hall : all.Nodup)
    (hcount : all.length ≤ 256 ^ 4) (hcover : ∀ a, a ∈ all) :
    (oneOf all).Lawful fun _ => True := by
  refine (natural_lawful 4).filterMap (fun a _ => ?_) (fun n a _ hread => ⟨trivial, ?_⟩)
  · have hpos : all.idxOf a < all.length := List.idxOf_lt_length_of_mem (hcover a)
    exact ⟨Nat.lt_of_lt_of_le hpos hcount, by rw [List.getElem?_eq_getElem hpos, List.getElem_idxOf]⟩
  · obtain ⟨hpos, rfl⟩ := List.getElem?_eq_some_iff.mp hread
    exact hall.idxOf_getElem n hpos

/-! ## Collections -/

theorem decodeItems_encodeItems (h : c.Lawful P) {as : List α} (has : ∀ a ∈ as, P a)
    (rest : List UInt8) : decodeItems c as.length (encodeItems c as ++ rest) = some (as, rest) := by
  induction as with
  | nil => rfl
  | cons a as ih =>
      have hfirst := h.decode_encode (has a List.mem_cons_self) (encodeItems c as ++ rest)
      have hrest := ih fun b hb => has b (List.mem_cons_of_mem _ hb)
      simp [encodeItems, decodeItems, List.append_assoc, hfirst, hrest]

theorem encodeItems_decodeItems (h : c.Lawful P) {count : Nat} {bytes rest : List UInt8}
    {as : List α} (hdecode : decodeItems c count bytes = some (as, rest)) :
    as.length = count ∧ (∀ a ∈ as, P a) ∧ encodeItems c as ++ rest = bytes := by
  induction count generalizing bytes as with
  | zero =>
      obtain ⟨rfl, rfl⟩ := Prod.mk.inj (Option.some.inj hdecode)
      exact ⟨rfl, fun _ ha => absurd ha List.not_mem_nil, rfl⟩
  | succ count ih =>
      obtain ⟨⟨a, middle⟩, hfirst, hrest⟩ := Option.bind_eq_some_iff.mp hdecode
      obtain ⟨⟨as', rest'⟩, has, hpair⟩ := Option.map_eq_some_iff.mp hrest
      obtain ⟨rfl, rfl⟩ := Prod.mk.inj hpair
      obtain ⟨hP, hbytes⟩ := h.encode_decode hfirst
      obtain ⟨hlen, hall, hmiddle⟩ := ih has
      refine ⟨congrArg (· + 1) hlen, List.forall_mem_cons.mpr ⟨hP, hall⟩, ?_⟩
      rw [← hbytes, ← hmiddle]
      exact List.append_assoc _ _ _

theorem list_lawful (h : c.Lawful P) :
    (list c).Lawful fun as => as.length < 2 ^ 64 ∧ ∀ a ∈ as, P a where
  decode_encode {as} has rest := by
    have hcount := (natural_lawful 8).decode_encode has.1 (encodeItems c as ++ rest)
    have hitems := decodeItems_encodeItems h has.2 rest
    simp [list, List.append_assoc, hcount, hitems]
  encode_decode {bytes as rest} hdecode := by
    obtain ⟨⟨count, middle⟩, hcount, hitems⟩ := Option.bind_eq_some_iff.mp hdecode
    obtain ⟨hlt, hbytes⟩ := (natural_lawful 8).encode_decode hcount
    obtain ⟨rfl, hall, hmiddle⟩ := encodeItems_decodeItems h hitems
    exact ⟨⟨hlt, hall⟩, by rw [← hbytes, ← hmiddle]; exact List.append_assoc _ _ _⟩

theorem option_lawful (h : c.Lawful P) : (option c).Lawful fun o => ∀ a ∈ o, P a where
  decode_encode {o} ho rest := by
    cases o with
    | none =>
        have hgiven := truth_lawful.decode_encode (a := false) trivial rest
        simp [option, hgiven]
    | some a =>
        have hgiven := truth_lawful.decode_encode (a := true) trivial (c.encode a ++ rest)
        have hvalue := h.decode_encode (ho a rfl) rest
        simp [option, List.append_assoc, hgiven, hvalue]
  encode_decode {bytes o rest} hdecode := by
    obtain ⟨⟨given, middle⟩, hgiven, hvalue⟩ := Option.bind_eq_some_iff.mp hdecode
    have hbytes := (truth_lawful.encode_decode hgiven).2
    cases given with
    | false =>
        obtain ⟨rfl, rfl⟩ := Prod.mk.inj (Option.some.inj hvalue)
        exact ⟨nofun, hbytes⟩
    | true =>
        obtain ⟨⟨a, rest'⟩, ha, hpair⟩ := Option.map_eq_some_iff.mp hvalue
        obtain ⟨rfl, rfl⟩ := Prod.mk.inj hpair
        obtain ⟨hP, hmiddle⟩ := h.encode_decode ha
        refine ⟨fun b hb => Option.some.inj hb ▸ hP, ?_⟩
        rw [← hbytes, ← hmiddle]
        exact List.append_assoc _ _ _

/-! ## Texts -/

theorem toList_loop (bytes : ByteArray) (i : Nat) (done : List UInt8) :
    ByteArray.toList.loop bytes i done = done.reverse ++ bytes.data.toList.drop i := by
  induction i, done using ByteArray.toList.loop.induct bytes with
  | case1 i done hlt ih =>
      have hget : bytes.data.toList.drop i = bytes.get! i :: bytes.data.toList.drop (i + 1) := by
        rw [List.drop_eq_getElem_cons hlt]
        simp [ByteArray.get!, getElem!_pos bytes.data i hlt]
      rw [ByteArray.toList.loop, if_pos hlt, ih, hget, List.reverse_cons, List.append_assoc]
      rfl
  | case2 i done hge =>
      have hdrop : bytes.data.toList.drop i = [] := List.drop_eq_nil_of_le (Nat.not_lt.mp hge)
      rw [ByteArray.toList.loop, if_neg hge, hdrop, List.append_nil]

theorem textBytes_eq (s : String) : textBytes s = s.toByteArray.data.toList := by
  exact toList_loop s.toByteArray 0 []

@[simp] theorem length_textBytes (s : String) : (textBytes s).length = s.utf8ByteSize := by
  rw [textBytes_eq]
  rfl

theorem bytesText?_eq_some {bytes : List UInt8} {s : String} :
    bytesText? bytes = some s ↔ textBytes s = bytes := by
  have hbytes : textBytes s = bytes ↔ ByteArray.mk bytes.toArray = s.toByteArray := by
    rw [textBytes_eq]
    constructor
    · rintro rfl
      rfl
    · intro h
      rw [← h]
  rw [hbytes, bytesText?, String.fromUTF8?]
  constructor
  · intro h
    split at h
    · rw [← Option.some.inj h]
      rfl
    · exact nomatch h
  · intro h
    rw [dif_pos (h ▸ s.isValidUTF8)]
    exact congrArg some (String.toByteArray_inj.mp h)

theorem text_lawful : text.Lawful fun s => s.utf8ByteSize < 2 ^ 64 where
  decode_encode {s} hs rest := by
    have hcount := (natural_lawful 8).decode_encode hs (textBytes s ++ rest)
    have hsplit := splitBytes_eq_some.mpr ⟨length_textBytes s, rfl (a := textBytes s ++ rest)⟩
    simp [text, List.append_assoc, hcount, hsplit, bytesText?_eq_some.mpr rfl]
  encode_decode {bytes s rest} hdecode := by
    obtain ⟨⟨count, middle⟩, hcount, htext⟩ := Option.bind_eq_some_iff.mp hdecode
    obtain ⟨⟨taken, rest'⟩, hsplit, hread⟩ := Option.bind_eq_some_iff.mp htext
    obtain ⟨s', hs, hpair⟩ := Option.map_eq_some_iff.mp hread
    obtain ⟨rfl, rfl⟩ := Prod.mk.inj hpair
    obtain ⟨hlt, hbytes⟩ := (natural_lawful 8).encode_decode hcount
    obtain ⟨rfl, hmiddle⟩ := splitBytes_eq_some.mp hsplit
    obtain rfl := bytesText?_eq_some.mp hs
    refine ⟨length_textBytes s' ▸ hlt, ?_⟩
    rw [← hbytes, ← hmiddle]
    exact List.append_assoc _ _ _

/-! ## A change of type moves outward -/

/-- Codecs that write and read alike are one. -/
theorem ext (hencode : ∀ a, c.encode a = c'.encode a)
    (hdecode : ∀ bytes, c.decode bytes = c'.decode bytes) : c = c' :=
  congr (congrArg mk (funext hencode)) (funext hdecode)

theorem map_map {γ : Type} (c : Codec α) (f : α → β) (g : β → α) (f' : β → γ) (g' : γ → β) :
    (c.map f g).map f' g' = c.map (f' ∘ f) (g ∘ g') :=
  ext (fun _ => rfl) fun bytes => by simp [Option.map_map, Function.comp_def]

theorem pair_map_left {γ : Type} (c : Codec α) (d : Codec γ) (f : α → β) (g : β → α) :
    (c.map f g).pair d = (c.pair d).map (Prod.map f id) (Prod.map g id) := by
  refine ext (fun _ => rfl) fun bytes => ?_
  simp only [pair, decode_map]
  cases c.decode bytes with
  | none => rfl
  | some p => cases hrest : d.decode p.2 <;> simp [hrest]

theorem pair_map_right {γ : Type} (c : Codec α) (d : Codec γ) (f : γ → β) (g : β → γ) :
    c.pair (d.map f g) = (c.pair d).map (Prod.map id f) (Prod.map id g) := by
  refine ext (fun _ => rfl) fun bytes => ?_
  simp only [pair, decode_map]
  cases c.decode bytes with
  | none => rfl
  | some p => cases hrest : d.decode p.2 <;> simp [hrest]

theorem encodeItems_map (c : Codec α) (f : α → β) (g : β → α) (bs : List β) :
    encodeItems (c.map f g) bs = encodeItems c (bs.map g) := by
  induction bs with
  | nil => rfl
  | cons b bs ih => exact congrArg (c.encode (g b) ++ ·) ih

theorem decodeItems_map (c : Codec α) (f : α → β) (g : β → α) (count : Nat)
    (bytes : List UInt8) : decodeItems (c.map f g) count bytes =
      (decodeItems c count bytes).map fun p => (p.1.map f, p.2) := by
  induction count generalizing bytes with
  | zero => rfl
  | succ count ih =>
      simp only [decodeItems, decode_map]
      cases c.decode bytes with
      | none => rfl
      | some p => cases hrest : decodeItems c count p.2 <;> simp [ih, hrest]

theorem list_map (c : Codec α) (f : α → β) (g : β → α) :
    list (c.map f g) = (list c).map (List.map f) (List.map g) := by
  refine ext (fun bs => ?_) fun bytes => ?_
  · simp [list, encodeItems_map]
  · simp only [list, decode_map]
    cases (natural 8).decode bytes with
    | none => rfl
    | some p => exact decodeItems_map c f g p.1 p.2

end Codec

end Wire

end Relayout
