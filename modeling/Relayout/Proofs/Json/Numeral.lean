/-
# Numbers are read as they are written

The scanner takes the longest number off the front of its input, so a numeral
comes back from its written form only if what follows does not go on with it
(`EndsNumber`).  Each part of a numeral is scanned up to the next one: the
point, the letter of the exponent and the end are no digits.
-/
import Relayout.Json.Token

namespace Relayout

namespace Digit

@[simp] theorem ofChar?_toChar (d : Digit) : ofChar? d.toChar = some d := by
  revert d
  decide

theorem toChar_eq_zero {d : Digit} (h : d.toChar = '0') : d = 0 := by
  revert d
  decide

theorem toChar_ne_minus (d : Digit) : d.toChar ≠ '-' := by
  revert d
  decide

theorem toNat_concat (ds : List Digit) (d : Digit) :
    toNat (ds ++ [d]) = 10 * toNat ds + d.val := by
  rw [toNat, List.foldl_append]
  rfl

/-- The decimal text of a number is a run of digits that stands for it and
starts with a zero only if the number is zero. -/
theorem exists_toDigits (n : Nat) :
    ∃ d ds, Nat.toDigits 10 n = (d :: ds).map toChar ∧ toNat (d :: ds) = n ∧ (d = 0 → n = 0) := by
  induction n using Nat.strongRecOn with
  | ind n ih =>
      have hchar : ∀ d : Digit, d.val.digitChar = d.toChar := by decide
      rw [Nat.toDigits_eq_if (by decide)]
      split
      case isTrue h =>
        refine ⟨⟨n, h⟩, [], ?_, Nat.zero_add n, fun hz => congrArg Fin.val hz⟩
        exact congrArg (· :: []) (hchar ⟨n, h⟩)
      case isFalse h =>
        obtain ⟨d, ds, htext, hvalue, hzero⟩ := ih (n / 10) (by omega)
        let last : Digit := ⟨n % 10, Nat.mod_lt n (by decide)⟩
        refine ⟨d, ds ++ [last], ?_, ?_, fun hd => ?_⟩
        · rw [htext, hchar last]
          simp
        · rw [← List.cons_append, toNat_concat, hvalue]
          exact Nat.div_add_mod n 10
        · have := hzero hd
          omega

end Digit

namespace Json

open Digit

/-! ## Runs of digits -/

/-- Nothing at the front goes on with a run of digits. -/
def EndsDigits (rest : List Char) : Prop := ∀ c ∈ rest.head?, isDigit c = false

/-- Nothing at the front goes on with a number. -/
def EndsNumber (rest : List Char) : Prop :=
  ∀ c ∈ rest.head?, isDigit c = false ∧ c ≠ '.' ∧ c ≠ 'e' ∧ c ≠ 'E'

theorem EndsNumber.endsDigits {rest : List Char} (h : EndsNumber rest) : EndsDigits rest :=
  fun c hc => (h c hc).1

theorem isDigit_toChar (d : Digit) : isDigit d.toChar = true := by
  rw [isDigit, ofChar?_toChar]
  rfl

theorem scanDigits_append (ds : List Digit) {rest : List Char} (h : EndsDigits rest) :
    scanDigits (ds.map toChar ++ rest) = (ds, rest) := by
  have hdigits : ∀ c ∈ ds.map toChar, isDigit c = true := fun c hc => by
    obtain ⟨d, -, rfl⟩ := List.mem_map.mp hc
    exact isDigit_toChar d
  have hstop : rest.takeWhile isDigit = [] ∧ rest.dropWhile isDigit = rest := by
    cases rest with
    | nil => exact ⟨rfl, rfl⟩
    | cons c rest =>
        have hc : isDigit c = false := h c rfl
        simp [hc]
  rw [scanDigits, List.takeWhile_append_of_pos hdigits, List.dropWhile_append_of_pos hdigits,
    hstop.1, hstop.2, List.append_nil, List.filterMap_map]
  congr 1
  have hback : ofChar? ∘ toChar = some := funext ofChar?_toChar
  rw [hback, List.filterMap_some]

/-! ## The parts of a number -/

theorem scanWhole_append (n : Nat) {rest : List Char} (h : EndsDigits rest) :
    scanWhole (Nat.toDigits 10 n ++ rest) = some (n, rest) := by
  obtain ⟨d, ds, htext, hvalue, hzero⟩ := exists_toDigits n
  by_cases hd : d = 0
  · rw [hzero hd]
    rfl
  · have hscan := scanDigits_append (d :: ds) h
    rw [htext, scanWhole]
    · simp only [hscan, hvalue]
    · intro rest' heq
      exact hd (toChar_eq_zero (List.cons.inj heq).1)

theorem scanFraction_append (ds : List Digit) {rest : List Char} (h : EndsDigits rest)
    (hpoint : '.' ∉ rest.head?) :
    scanFraction (Numeral.fractionText ds ++ rest) = some (ds, rest) := by
  cases ds with
  | nil =>
      rw [Numeral.fractionText, List.nil_append, scanFraction]
      rintro input rfl
      exact hpoint rfl
  | cons d ds =>
      have hscan := scanDigits_append (d :: ds) h
      rw [Numeral.fractionText, List.cons_append, scanFraction, hscan]
      exact nofun

/-- The written form of an exponent, or nothing. -/
def exponentForm : Option Int → List Char
  | none => []
  | some e => Numeral.exponentText e

theorem scanPower_append (e : Int) {rest : List Char} (h : EndsDigits rest) :
    scanPower ((if e < 0 then '-' else '+') :: (Nat.toDigits 10 e.natAbs ++ rest)) =
      some (some e, rest) := by
  obtain ⟨d, ds, htext, hvalue, -⟩ := exists_toDigits e.natAbs
  have hscan := scanDigits_append (d :: ds) h
  rw [htext]
  split
  case isTrue hneg =>
    simp only [scanPower, scanSign, hscan, hvalue, if_true]
    have he : -(e.natAbs : Int) = e := by omega
    rw [he]
  case isFalse hneg =>
    simp only [scanPower, scanSign, hscan, hvalue, Bool.false_eq_true, if_false]
    have he : (e.natAbs : Int) = e := by omega
    rw [he]

theorem scanExponent_append (e : Option Int) {rest : List Char} (h : EndsNumber rest) :
    scanExponent (exponentForm e ++ rest) = some (e, rest) := by
  cases e with
  | none =>
      rw [exponentForm, List.nil_append, scanExponent]
      · rintro input rfl
        exact (h 'e' rfl).2.2.1 rfl
      · rintro input rfl
        exact (h 'E' rfl).2.2.2 rfl
  | some e => exact scanPower_append e h.endsDigits

/-! ## Numbers -/

theorem text_eq (n : Numeral) :
    n.text = (if n.negative then ['-'] else []) ++ (Nat.toDigits 10 n.whole ++
      (Numeral.fractionText n.fraction ++ exponentForm n.exponent)) := by
  rw [Numeral.text, List.append_assoc, List.append_assoc]
  cases n.exponent <;> rfl

/-- The form of an exponent is no digit and no point. -/
theorem endsDigits_exponentForm (e : Option Int) {rest : List Char} (h : EndsNumber rest) :
    EndsDigits (exponentForm e ++ rest) ∧ '.' ∉ (exponentForm e ++ rest).head? := by
  cases e with
  | none => exact ⟨h.endsDigits, fun hpoint => (h '.' hpoint).2.1 rfl⟩
  | some e =>
      refine ⟨fun c hc => ?_, nofun⟩
      cases hc
      rfl

/-- The form of a fraction is no digit. -/
theorem endsDigits_fractionText (ds : List Digit) {rest : List Char} (h : EndsDigits rest) :
    EndsDigits (Numeral.fractionText ds ++ rest) := by
  cases ds with
  | nil => exact h
  | cons d ds =>
      intro c hc
      cases hc
      rfl

theorem scanUnsigned_append (n : Numeral) {rest : List Char} (h : EndsNumber rest) :
    scanUnsigned n.negative (Nat.toDigits 10 n.whole ++
      (Numeral.fractionText n.fraction ++ (exponentForm n.exponent ++ rest))) =
      some (n, rest) := by
  obtain ⟨hdigits, hpoint⟩ := endsDigits_exponentForm n.exponent h
  simp only [scanUnsigned, scanWhole_append n.whole (endsDigits_fractionText n.fraction hdigits),
    scanFraction_append n.fraction hdigits hpoint, scanExponent_append n.exponent h,
    Option.bind_eq_bind, Option.bind_some, Option.pure_def]

/-- A number is read off the front of an input that goes on with something
else. -/
theorem scanNumber_append (n : Numeral) {rest : List Char} (h : EndsNumber rest) :
    scanNumber (n.text ++ rest) = some (n, rest) := by
  have hscan := scanUnsigned_append n h
  rw [text_eq]
  cases hneg : n.negative with
  | true =>
      rw [hneg] at hscan
      simpa [scanNumber] using hscan
  | false =>
      rw [hneg] at hscan
      obtain ⟨d, ds, htext, -, -⟩ := exists_toDigits n.whole
      rw [htext] at hscan ⊢
      simp only [Bool.false_eq_true, if_false, List.nil_append, List.append_assoc]
      rw [scanNumber]
      · exact hscan
      · intro input heq
        exact toChar_ne_minus d (List.cons.inj heq).1

end Json

end Relayout
