/-
# Quoted texts are read as they are written

The writer escapes what may not stand inside quotes: quotes, backslashes and
the characters below 32.  Each character, escaped or not, is scanned as itself
(`scanText_escaped`), so a quoted text is scanned as its characters, and a
text of characters has no half of a surrogate pair to be joined.
-/
import Relayout.Json.Printer
import Relayout.Json.Token

namespace Relayout.Json

/-! ## One character -/

theorem hexDigit?_digitChar {n : Nat} (h : n < 16) : hexDigit? n.digitChar = some n := by
  have hall : ∀ d : Fin 16, hexDigit? d.val.digitChar = some d.val := by decide
  exact hall ⟨n, h⟩

theorem hexCode?_digitChar {n : Nat} (h : n < 32) :
    hexCode? '0' '0' (Nat.digitChar (n / 16)) (Nat.digitChar (n % 16)) = some n := by
  have hzero : hexDigit? '0' = some 0 := by decide
  have hhigh := hexDigit?_digitChar (n := n / 16) (by omega)
  have hlow := hexDigit?_digitChar (n := n % 16) (by omega)
  have hsum : ((0 * 16 + 0) * 16 + n / 16) * 16 + n % 16 = n := by omega
  simp only [hexCode?, hzero, hhigh, hlow, Option.bind_eq_bind, Option.bind_some, Option.pure_def,
    hsum]

theorem ofCode_toNat {c : Char} (h : c.toNat < 32) : TextUnit.ofCode c.toNat = .char c := by
  rw [TextUnit.ofCode, if_neg (by omega), Char.ofNat_toNat]

/-- A character without a short escape is no quote and no backslash. -/
theorem ne_of_shortEscape?_eq_none {c : Char} (h : shortEscape? c = none) :
    c ≠ '"' ∧ c ≠ '\\' := by
  constructor <;> rintro rfl <;> cases h

/-- A letter that the writer uses is read as what it is written for. -/
theorem unescape?_of_shortEscape? {c letter : Char} (h : shortEscape? c = some letter) :
    unescape? letter = some c ∧ letter ≠ 'u' := by
  unfold shortEscape? at h
  split at h <;> cases h <;> exact ⟨rfl, by decide⟩

/-- A character behind no backslash stands for itself. -/
theorem scanText_plain {c : Char} (hquote : c ≠ '"') (hslash : c ≠ '\\') (h : ¬c.toNat < 32)
    (rest : List Char) (read : List TextUnit) :
    scanText (c :: rest) read = scanText rest (.char c :: read) := by
  rw [scanText, if_neg (not_or.mpr ⟨h, hslash⟩)]
  · exact hquote
  · rintro a b c' d rest' rfl
    exact absurd rfl hslash
  · rintro e rest' rfl
    exact absurd rfl hslash

theorem scanText_letter {letter c : Char} (hletter : unescape? letter = some c)
    (hu : letter ≠ 'u') (rest : List Char) (read : List TextUnit) :
    scanText ('\\' :: letter :: rest) read = scanText rest (.char c :: read) := by
  rw [scanText, hletter]
  rintro a b c' d rest' rfl
  exact absurd rfl hu

theorem scanText_escaped (c : Char) (rest : List Char) (read : List TextUnit) :
    scanText (escaped c ++ rest) read = scanText rest (.char c :: read) := by
  cases hshort : shortEscape? c with
  | some letter =>
      obtain ⟨hletter, hu⟩ := unescape?_of_shortEscape? hshort
      rw [escaped, hshort]
      exact scanText_letter hletter hu rest read
  | none =>
      obtain ⟨hquote, hslash⟩ := ne_of_shortEscape?_eq_none hshort
      rw [escaped, hshort]
      by_cases hlow : c.toNat < 32
      · rw [if_pos hlow]
        simp only [List.cons_append, List.nil_append, scanText, hexCode?_digitChar hlow,
          ofCode_toNat hlow]
      · rw [if_neg hlow]
        exact scanText_plain hquote hslash hlow rest read

/-! ## Whole texts -/

theorem scanText_flatMap_escaped (cs rest : List Char) (read : List TextUnit) :
    scanText (cs.flatMap escaped ++ '"' :: rest) read =
      some (read.reverse ++ cs.map TextUnit.char, rest) := by
  induction cs generalizing read with
  | nil => rw [List.flatMap_nil, List.nil_append, scanText, List.map_nil, List.append_nil]
  | cons c cs ih =>
      rw [List.flatMap_cons, List.append_assoc, scanText_escaped, ih, List.reverse_cons,
        List.append_assoc]
      rfl

theorem joinUnits_map_char (cs : List Char) : joinUnits (cs.map TextUnit.char) = some cs := by
  induction cs with
  | nil => rfl
  | cons c cs ih => rw [List.map_cons, joinUnits, ih, Option.map_some]

/-- A quoted text is one token, whatever follows it. -/
theorem scanToken_quoted (s : String) (rest : List Char) :
    scanToken (quoted s.toList ++ rest) = some (.text (some s), rest) := by
  have hscan := scanText_flatMap_escaped s.toList rest []
  rw [List.reverse_nil, List.nil_append] at hscan
  have hinput : quoted s.toList ++ rest = '"' :: (s.toList.flatMap escaped ++ '"' :: rest) := by
    simp [quoted]
  rw [hinput, scanToken, hscan, Option.map_some]
  simp only [joinUnits_map_char, Option.map_some, String.ofList_toList]

end Relayout.Json
