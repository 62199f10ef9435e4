/-
# Shortest decimals

A float is written with the fewest digits that read back to it.  The grids of
the powers of ten are tried from coarse to fine; on each, the two neighbours
of the exact value are the only candidates, and a candidate counts when
rounding it gives the same magnitude bits.  Of two that count the nearer wins,
and a `Tie` decides an exact draw.
-/
import Relayout.Number.Numeral

namespace Relayout

/- A power is the core library's, whatever other instances are in scope. -/
attribute [local instance (high)] instPowNat

/-- A decimal value `digits * 10 ^ exponent`. -/
structure Decimal where
  digits : Nat
  exponent : Int
deriving DecidableEq, Repr

/-- Which of two equally near candidates is written. -/
inductive Tie where
  | toEven
  | up
deriving DecidableEq, Repr

namespace Decimal

/-- The magnitude bits a decimal is read as. -/
def roundTo (f : Format) (d : Decimal) : Nat :=
  f.roundMagnitude (d.digits * 10 ^ d.exponent.toNat) (10 ^ (-d.exponent).toNat)

/-- Whether a candidate may stand for the given magnitude bits. -/
def readsBack (f : Format) (magnitude : Nat) (d : Decimal) : Bool :=
  0 < d.digits && d.roundTo f == magnitude

/-- Which of the neighbours `low` and `low + 1` is nearer to a value whose
remainder above `low` is `rest` parts of `unit`. -/
def nearer (tie : Tie) (low rest unit : Nat) : Nat :=
  if 2 * rest < unit then low
  else if unit < 2 * rest then low + 1
  else
    match tie with
    | .toEven => low + low % 2
    | .up => low + 1

/-- The candidate for the exact value `num / den` on the grid of
`10 ^ exponent`, if either neighbour on that grid reads back. -/
def onGrid (f : Format) (tie : Tie) (magnitude num den : Nat) (exponent : Int) :
    Option Decimal :=
  let value := num * 10 ^ (-exponent).toNat
  let unit := den * 10 ^ exponent.toNat
  let low := value / unit
  match readsBack f magnitude ⟨low, exponent⟩, readsBack f magnitude ⟨low + 1, exponent⟩ with
  | true, true => some ⟨nearer tie low (value % unit) unit, exponent⟩
  | true, false => some ⟨low, exponent⟩
  | false, true => some ⟨low + 1, exponent⟩
  | false, false => none

/-- The exact value `m * 2 ^ q`, a decimal like every binary fraction. -/
def exact (m : Nat) (q : Int) : Decimal :=
  ⟨m * 2 ^ q.toNat * 5 ^ (-q).toNat, min q 0⟩

/-- The exponents of the grids that are tried: from above the value's leading
digit down past its seventeenth. -/
def grids (num den : Nat) : List Int :=
  let top := quotientLog num den * 30103 / 100000 + 2
  (List.range 24).map fun i : Nat => top - (i : Int)

/-- The shortest decimal of finite, non-zero magnitude bits. -/
def shortest (f : Format) (tie : Tie) (magnitude : Nat) : Decimal :=
  let (m, q) := f.significand magnitude
  let num := m * 2 ^ q.toNat
  let den := 2 ^ (-q).toNat
  ((grids num den).findSome? (onGrid f tie magnitude num den)).getD (exact m q)

end Decimal

/-- How a decimal is laid out: for which exponents of the leading digit it is
written positionally, whether a whole number keeps a point and a zero, and how
a draw between candidates is decided. -/
structure FloatStyle where
  isPositional : Int → Bool
  pointZero : Bool
  tie : Tie

namespace FloatStyle

/-- The digits around a fixed point. -/
def positional (style : FloatStyle) (negative : Bool) (d : Decimal) : Numeral :=
  let places := (-d.exponent).toNat
  let units := d.digits * 10 ^ d.exponent.toNat
  let fraction := Digit.padded places (units % 10 ^ places)
  ⟨negative, units / 10 ^ places,
    if places = 0 ∧ style.pointZero then [0] else fraction, none⟩

/-- One digit before the point, and an exponent. -/
def scientific (negative : Bool) (d : Decimal) : Numeral :=
  let places := decimalLength d.digits - 1
  ⟨negative, d.digits / 10 ^ places, Digit.padded places (d.digits % 10 ^ places),
    some (d.exponent + places)⟩

/-- A decimal laid out by the style. -/
def layOut (style : FloatStyle) (negative : Bool) (d : Decimal) : Numeral :=
  if style.isPositional (d.exponent + decimalLength d.digits - 1) then
    style.positional negative d
  else scientific negative d

/-- A finite pattern as a numeral. -/
def numeral (style : FloatStyle) (f : Format) (bits : Nat) : Numeral :=
  let negative := f.isNegative bits
  let magnitude := f.magnitude bits
  if magnitude = 0 then style.positional negative ⟨0, 0⟩
  else style.layOut negative (Decimal.shortest f style.tie magnitude)

end FloatStyle

end Relayout
