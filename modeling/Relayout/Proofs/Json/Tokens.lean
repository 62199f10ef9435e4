/-
# The tokens of a written document

`Lexes` says what it is for an input to consist of tokens with white space
between them; the lexer finds those tokens (`Lexes.tokens_eq`).  The written
form of a value is shown to consist of the value's tokens from the back: what
is put in front of an input that lexes, lexes.  A number may only stand before
something that does not go on with it, and all that ever follows a value is a
comma, a new line or the end.
-/
import Relayout.Proofs.Json.Numeral
import Relayout.Proofs.Json.Text

namespace Relayout.Json

/-! ## Inputs that consist of tokens -/

/-- The input consists of the tokens, in order, and white space. -/
inductive Lexes : List Char → List Token → Prop where
  | done : Lexes [] []
  | space {c : Char} {input : List Char} {ts : List Token} :
      isSpace c = true → Lexes input ts → Lexes (c :: input) ts
  | token {c : Char} {w input : List Char} {t : Token} {ts : List Token} :
      isSpace c = false → scanToken (c :: w ++ input) = some (t, input) → Lexes input ts →
      Lexes (c :: w ++ input) (t :: ts)

theorem scanTokens_space {c : Char} (h : isSpace c = true) (fuel : Nat) (input : List Char)
    (read : List Token) : scanTokens fuel (c :: input) read = scanTokens fuel input read := by
  rw [scanTokens.eq_def, scanTokens.eq_def fuel input]
  simp only [List.dropWhile_cons_of_pos h]

theorem scanTokens_token {c : Char} {cs input : List Char} {t : Token} (hc : isSpace c = false)
    (h : scanToken (c :: cs) = some (t, input)) (fuel : Nat) (read : List Token) :
    scanTokens (fuel + 1) (c :: cs) read = scanTokens fuel input (t :: read) := by
  have hdrop : (c :: cs).dropWhile isSpace = c :: cs :=
    List.dropWhile_cons_of_neg (by rw [hc]; exact Bool.false_ne_true)
  rw [scanTokens.eq_def]
  simp only [hdrop, h]

/-- Fuel for every character is enough: a token takes at least one. -/
theorem Lexes.scanTokens_eq {input : List Char} {ts : List Token} (h : Lexes input ts) :
    ∀ {fuel : Nat}, input.length ≤ fuel → ∀ read : List Token,
      scanTokens fuel input read = some (read.reverse ++ ts) := by
  induction h with
  | done =>
      intro fuel _ read
      rw [scanTokens.eq_def, List.append_nil]
      rfl
  | space hc _ ih =>
      intro fuel hfuel read
      rw [scanTokens_space hc, ih (Nat.le_of_succ_le hfuel)]
  | @token c w input t ts hc hscan _ ih =>
      intro fuel hfuel read
      cases fuel with
      | zero => exact absurd hfuel (Nat.not_succ_le_zero _)
      | succ fuel =>
          have hrest : input.length ≤ fuel := by
            simp only [List.cons_append, List.length_cons, List.length_append] at hfuel
            omega
          rw [List.cons_append] at hscan ⊢
          rw [scanTokens_token hc hscan, ih hrest, List.reverse_cons, List.append_assoc]
          rfl

/-- The lexer finds the tokens that an input consists of. -/
theorem Lexes.tokens_eq {input : List Char} {ts : List Token} (h : Lexes input ts) :
    tokens input = some ts :=
  h.scanTokens_eq (Nat.le_refl _) []

/-- A token of one character. -/
theorem Lexes.mark {c : Char} {input : List Char} {t : Token} {ts : List Token}
    (hc : isSpace c = false) (hscan : scanToken (c :: input) = some (t, input))
    (h : Lexes input ts) : Lexes (c :: input) (t :: ts) :=
  Lexes.token (w := []) hc hscan h

theorem Lexes.newLine {input : List Char} {ts : List Token} (h : Lexes input ts) (depth : Nat) :
    Lexes (newLine depth ++ input) ts := by
  have hblanks : ∀ n, Lexes (List.replicate n ' ' ++ input) ts := by
    intro n
    induction n with
    | zero => exact h
    | succ n ih => exact .space rfl ih
  exact .space rfl (hblanks _)

/-! ## Words, texts and numbers -/

theorem Lexes.quoted {input : List Char} {ts : List Token} (h : Lexes input ts) (s : String) :
    Lexes (quoted s.toList ++ input) (.text (some s) :: ts) :=
  .token rfl (scanToken_quoted s input) h

/-- A number starts with its sign or with a digit. -/
theorem exists_text_eq_cons (n : Numeral) :
    ∃ c cs, n.text = c :: cs ∧ (c = '-' ∨ ∃ d : Digit, c = d.toChar) := by
  obtain ⟨d, ds, htext, -, -⟩ := Digit.exists_toDigits n.whole
  cases hneg : n.negative
  · exact ⟨d.toChar, _, by rw [text_eq, htext, hneg]; rfl, Or.inr ⟨d, rfl⟩⟩
  · exact ⟨'-', _, by rw [text_eq, hneg]; rfl, Or.inl rfl⟩

theorem scanToken_of_numeric {c : Char} (h : c = '-' ∨ ∃ d : Digit, c = d.toChar)
    (cs : List Char) :
    isSpace c = false ∧
      scanToken (c :: cs) = (scanNumber (c :: cs)).map fun (n, rest) => (.number n, rest) := by
  rcases h with rfl | ⟨d, rfl⟩
  · exact ⟨rfl, rfl⟩
  · match d with
    | 0 | 1 | 2 | 3 | 4 | 5 | 6 | 7 | 8 | 9 => exact ⟨rfl, rfl⟩

theorem Lexes.number {input : List Char} {ts : List Token} (h : Lexes input ts)
    (hends : EndsNumber input) (n : Numeral) : Lexes (n.text ++ input) (.number n :: ts) := by
  obtain ⟨c, cs, htext, hc⟩ := exists_text_eq_cons n
  obtain ⟨hspace, hscan⟩ := scanToken_of_numeric hc (cs ++ input)
  have hnumber := scanNumber_append n hends
  rw [htext] at hnumber ⊢
  rw [List.cons_append] at hnumber
  rw [hnumber] at hscan
  exact .token hspace hscan h

/-! ## Values -/

mutual

/-- The tokens of the written form of a value. -/
def tokensOf : Json → List Token
  | .null => [.null]
  | .bool b => [.bool b]
  | .number n => [.number n]
  | .text t => [.text t]
  | .array [] => [.openArray, .closeArray]
  | .array (v :: vs) => .openArray :: (tokensOf v ++ (itemTokens vs ++ [.closeArray]))
  | .object [] => [.openObject, .closeObject]
  | .object ((key, v) :: members) =>
      .openObject :: .text key :: .colon :: (tokensOf v ++ (memberTokens members ++ [.closeObject]))

/-- The tokens of the items behind the first. -/
def itemTokens : List Json → List Token
  | [] => []
  | v :: vs => .comma :: (tokensOf v ++ itemTokens vs)

/-- The tokens of the members behind the first. -/
def memberTokens : List (Option String × Json) → List Token
  | [] => []
  | (key, v) :: members => .comma :: .text key :: .colon :: (tokensOf v ++ memberTokens members)

end

/-- A value whose texts all have content, keys included; no other value can be
written. -/
inductive Plain : Json → Prop where
  | null : Plain .null
  | bool (b : Bool) : Plain (.bool b)
  | number (n : Numeral) : Plain (.number n)
  | text (s : String) : Plain (.text (some s))
  | array {vs : List Json} : (∀ v ∈ vs, Plain v) → Plain (.array vs)
  | object {members : List (Option String × Json)} :
      (∀ m ∈ members, ∃ key : String, m.1 = some key) → (∀ m ∈ members, Plain m.2) →
      Plain (.object members)

/-- The form of a value, before an input that lexes and does not go on with a
number, adds the tokens of the value. -/
def FormLexes (v : Json) : Prop :=
  ∀ (depth : Nat) {input : List Char} {ts : List Token}, EndsNumber input → Lexes input ts →
    Lexes (form depth v ++ input) (tokensOf v ++ ts)

theorem endsNumber_cons {c : Char} (hc : isDigit c = false ∧ c ≠ '.' ∧ c ≠ 'e' ∧ c ≠ 'E')
    (input : List Char) : EndsNumber (c :: input) := by
  rintro _ ⟨⟩
  exact hc

theorem endsNumber_newLine (depth : Nat) (input : List Char) :
    EndsNumber (newLine depth ++ input) := endsNumber_cons (by decide) _

theorem endsNumber_itemForms (depth : Nat) (vs : List Json) {input : List Char}
    (h : EndsNumber input) : EndsNumber (itemForms depth vs ++ input) := by
  cases vs with
  | nil => exact h
  | cons v vs => exact endsNumber_cons (by decide) _

theorem endsNumber_memberForms (depth : Nat) (members : List (Option String × Json))
    {input : List Char} (h : EndsNumber input) :
    EndsNumber (memberForms depth members ++ input) := by
  cases members with
  | nil => exact h
  | cons m members => exact endsNumber_cons (by decide) _

theorem lexes_itemForms {vs : List Json} (hvs : ∀ v ∈ vs, FormLexes v) (depth : Nat)
    {input : List Char} {ts : List Token} (hends : EndsNumber input) (h : Lexes input ts) :
    Lexes (itemForms depth vs ++ input) (itemTokens vs ++ ts) := by
  induction vs with
  | nil => exact h
  | cons v vs ih =>
      obtain ⟨hv, hvs⟩ := List.forall_mem_cons.mp hvs
      have hitem := hv depth (endsNumber_itemForms depth vs hends) (ih hvs)
      simp only [itemForms, itemTokens, List.cons_append, List.append_assoc]
      exact .mark rfl rfl (hitem.newLine depth)

/-- A member behind its new line: the key, the colon and the value. -/
theorem lexes_member {key : Option String} {v : Json} (hkey : ∃ s : String, key = some s)
    (hv : FormLexes v) (depth : Nat) {input : List Char} {ts : List Token}
    (hends : EndsNumber input) (h : Lexes input ts) :
    Lexes (newLine depth ++ (textForm key ++ (':' :: ' ' :: (form depth v ++ input))))
      (.text key :: .colon :: (tokensOf v ++ ts)) := by
  obtain ⟨s, rfl⟩ := hkey
  have hvalue := hv depth hends h
  exact ((Lexes.mark rfl rfl (.space rfl hvalue)).quoted s).newLine depth

theorem lexes_memberForms {members : List (Option String × Json)}
    (hkeys : ∀ m ∈ members, ∃ key : String, m.1 = some key)
    (hmembers : ∀ m ∈ members, FormLexes m.2) (depth : Nat) {input : List Char}
    {ts : List Token} (hends : EndsNumber input) (h : Lexes input ts) :
    Lexes (memberForms depth members ++ input) (memberTokens members ++ ts) := by
  induction members with
  | nil => exact h
  | cons m members ih =>
      obtain ⟨hkey, hkeys⟩ := List.forall_mem_cons.mp hkeys
      obtain ⟨hm, hmembers⟩ := List.forall_mem_cons.mp hmembers
      have hmember := lexes_member hkey hm depth (endsNumber_memberForms depth members hends)
        (ih hkeys hmembers)
      simp only [memberForms, memberTokens, List.cons_append, List.append_assoc, List.nil_append]
      exact .mark rfl rfl hmember

theorem Plain.formLexes {v : Json} (hv : v.Plain) : FormLexes v := by
  induction hv with
  | null => exact fun _ _ _ _ h => .token (w := ['u', 'l', 'l']) rfl rfl h
  | bool b =>
      intro _ _ _ _ h
      cases b
      · exact .token (w := ['a', 'l', 's', 'e']) rfl rfl h
      · exact .token (w := ['r', 'u', 'e']) rfl rfl h
  | number n => exact fun _ _ _ hends h => h.number hends n
  | text s => exact fun _ _ _ _ h => h.quoted s
  | @array vs _ ih =>
      intro depth input ts hends h
      cases vs with
      | nil => exact .mark rfl rfl (.mark rfl rfl h)
      | cons v vs =>
          obtain ⟨hv, hvs⟩ := List.forall_mem_cons.mp ih
          have hclose : Lexes (newLine depth ++ (']' :: input)) (.closeArray :: ts) :=
            Lexes.newLine (.mark rfl rfl h) depth
          have hitems := lexes_itemForms hvs (depth + 1) (endsNumber_newLine depth _) hclose
          have hfirst := hv (depth + 1)
            (endsNumber_itemForms (depth + 1) vs (endsNumber_newLine depth _)) hitems
          simp only [form, tokensOf, List.cons_append, List.append_assoc, List.nil_append]
          exact .mark rfl rfl (hfirst.newLine (depth + 1))
  | @object members hkeys _ ih =>
      intro depth input ts hends h
      cases members with
      | nil => exact .mark rfl rfl (.mark rfl rfl h)
      | cons m members =>
          obtain ⟨hm, hmembers⟩ := List.forall_mem_cons.mp ih
          obtain ⟨hkey, hkeys⟩ := List.forall_mem_cons.mp hkeys
          have hclose : Lexes (newLine depth ++ ('\x7d' :: input)) (.closeObject :: ts) :=
            Lexes.newLine (.mark rfl rfl h) depth
          have hrest := lexes_memberForms hkeys hmembers (depth + 1) (endsNumber_newLine depth _)
            hclose
          have hfirst := lexes_member hkey hm (depth + 1)
            (endsNumber_memberForms (depth + 1) members (endsNumber_newLine depth _)) hrest
          simp only [form, tokensOf, List.cons_append, List.append_assoc, List.nil_append]
          exact .mark rfl rfl hfirst

/-- A written document consists of the tokens of its value. -/
theorem Plain.tokens_form {v : Json} (h : v.Plain) : tokens (form 0 v) = some (tokensOf v) := by
  have hlexes : Lexes (form 0 v ++ []) (tokensOf v ++ []) := h.formLexes 0 nofun .done
  rw [List.append_nil, List.append_nil] at hlexes
  exact hlexes.tokens_eq

end Relayout.Json
