/-
# Decimal numerals

A numeral is the number syntax of the text formats, taken apart: sign, whole
part, fraction digits and exponent.  It keeps the difference between `1`,
`1.0` and `1e0`, which matters to readers that tell integers from floats, and
forgets only the spelling of the exponent.
-/
import Relayout.Number.Rounding

namespace Relayout

/- A power is the core library's, whatever other instances are in scope. -/
attribute [local instance (high)] instPowNat

/-- One decimal digit. -/
abbrev Digit := Fin 10

namespace Digit

def toChar (d : Digit) : Char := Char.ofNat (48 + d.val)

/-- The digit written by a character; ASCII digits only. -/
def ofChar? (c : Char) : Option Digit :=
  if h : 48 ≤ c.toNat ∧ c.toNat < 58 then some ⟨c.toNat - 48, by omega⟩ else none

/-- The number written by a run of digits, most significant first. -/
def toNat (ds : List Digit) : Nat := ds.foldl (fun n d => 10 * n + d.val) 0

/-- Digits appended to a number as long as it stays below `2 ^ 64`: the number,
and how many digits were left over. -/
def absorb : Nat → List Digit → Nat × Nat
  | n, [] => (n, 0)
  | n, d :: ds =>
      if 10 * n + d.val < 2 ^ (64 : Nat) then absorb (10 * n + d.val) ds else (n, ds.length + 1)

/-- The last `count` decimal digits of `n`, most significant first, with
leading zeros. -/
def padded : Nat → Nat → List Digit
  | 0, _ => []
  | count + 1, n => padded count (n / 10) ++ [⟨n % 10, Nat.mod_lt n (by decide)⟩]

end Digit

/-- Number of decimal digits of `n`; zero has one. -/
def decimalLength (n : Nat) : Nat := (Nat.toDigits 10 n).length

/-- A number as written.  An empty fraction means that no point is written. -/
structure Numeral where
  negative : Bool
  whole : Nat
  fraction : List Digit
  exponent : Option Int
deriving DecidableEq, Repr

namespace Numeral

/-- A plain integer. -/
def ofInt (i : Int) : Numeral := ⟨decide (i < 0), i.natAbs, [], none⟩

/-- Whether neither point nor exponent is written. -/
def isIntegral (n : Numeral) : Bool := n.fraction.isEmpty && n.exponent.isNone

/-- The integer a numeral denotes when it is one as written.  A negative zero
has the form of an integer and still is none: integers have one zero. -/
def toInt? (n : Numeral) : Option Int :=
  if n.isIntegral && !(n.negative && n.whole == 0) then
    some (if n.negative then -(n.whole : Int) else n.whole)
  else none

/-! ## Reading as a double -/

/-- The digits that are read, as one number, and the power of ten it is scaled
by.  Only digits that leave the number below `2 ^ 64` are read.  One of the
whole part that is not read still is a place; what follows in the fraction is
tried anew. -/
def scaled (n : Numeral) : Nat × Int :=
  let (whole, unread) := Digit.absorb 0 (Digit.padded (decimalLength n.whole) n.whole)
  let (significand, dropped) := Digit.absorb whole n.fraction
  (significand, n.exponent.getD 0 + unread + dropped - n.fraction.length)

/-- The double nearest to a power of ten. -/
def powerOfTen (k : Nat) : Nat := Format.double.roundMagnitude (10 ^ k) 1

/-- The largest power of ten that is a finite double. -/
def topPower : Nat := 308

/-- A magnitude divided by the largest power of ten, so many times. -/
def lowered (x : Nat) : Nat → Nat
  | 0 => x
  | steps + 1 =>
      if x = 0 then 0 else lowered (Format.double.quotient x (powerOfTen topPower)) steps

/-- A magnitude divided by `10 ^ (k + 1)`, as far as possible in one step. -/
def dividedByPower (x k : Nat) : Nat :=
  Format.double.quotient (lowered x (k / topPower)) (powerOfTen (k % topPower + 1))

/-- A magnitude multiplied by `10 ^ k`, if that is finite. -/
def multipliedByPower? (x k : Nat) : Option Nat :=
  if x = 0 then some 0
  else if topPower < k then none
  else some (Format.double.product x (powerOfTen k)) |>.filter (· < Format.double.infinity)

/-- The double that a numeral is read as; `none` when that is an infinity.
The significand is rounded, and so is every step of its scaling, so the result
may differ from the nearest double in the last place. -/
def toDouble? (n : Numeral) : Option Nat :=
  let f := Format.double
  let (significand, exponent) := n.scaled
  let x := f.roundMagnitude significand 1
  let magnitude? :=
    match exponent with
    | .ofNat k => multipliedByPower? x k
    | .negSucc k => some (dividedByPower x k)
  magnitude?.map fun magnitude => f.signBit n.negative + magnitude

/-- The least magnitude that 64 bits do not hold: signed for a negative
number, unsigned for any other. -/
def wordBound (negative : Bool) : Nat :=
  if negative then 2 ^ (63 : Nat) + 1 else 2 ^ (64 : Nat)

/-- Whether a numeral is an integer that fits 64 bits, signed or unsigned. -/
def fitsWord (n : Numeral) : Bool := n.isIntegral && n.whole < wordBound n.negative

/-- The pattern of format `f` that a numeral is read as.  A word-sized integer
is rounded once; any other numeral is first read as a double. -/
def toFloat? (f : Format) (n : Numeral) : Option Nat :=
  if n.fitsWord then some (f.ofQuotient n.negative n.whole 1)
  else n.toDouble?.map fun bits => Format.double.convert f bits

/-- The written exponent: its sign always, no padding. -/
def exponentText (e : Int) : List Char :=
  'e' :: (if e < 0 then '-' else '+') :: Nat.toDigits 10 e.natAbs

/-- The point and the digits behind it, or nothing. -/
def fractionText : List Digit → List Char
  | [] => []
  | ds => '.' :: ds.map Digit.toChar

/-- The written form. -/
def text (n : Numeral) : List Char :=
  (if n.negative then ['-'] else []) ++ Nat.toDigits 10 n.whole ++ fractionText n.fraction ++
    (match n.exponent with
      | none => []
      | some e => exponentText e)

end Numeral

end Relayout
