/-
# Rounding to a binary format

Every conversion into a float is "the exact value, rounded once to nearest,
ties to even".  Exact values are quotients of naturals, so one rounding
function serves integers, decimals and other formats alike.  Conversions out
of a float truncate toward zero and saturate.
-/
import Relayout.Number.Format

namespace Relayout

/- A power is the core library's, whatever other instances are in scope. -/
attribute [local instance (high)] instPowNat

/-- The quotient rounded to the nearest natural, an exact half to the even
neighbour. -/
def roundQuotient (num den : Nat) : Nat :=
  let q := num / den
  let r := num % den
  if 2 * r < den then q
  else if den < 2 * r then q + 1
  else q + q % 2

/-- The exponent `k` with `2 ^ k ≤ num / den < 2 ^ (k + 1)`, for a positive
quotient.  The difference of the logarithms is at most one too large. -/
def quotientLog (num den : Nat) : Int :=
  let k : Int := (num.log2 : Int) - den.log2
  if num * 2 ^ (-k).toNat < den * 2 ^ k.toNat then k - 1 else k

namespace Format

/-- Magnitude bits of the quotient `num / den`, rounded to nearest even.

The grid of the result has spacing `2 ^ scale`.  Counting grid points from the
start of the binade adds directly to the exponent field, so a carry out of the
fraction lands in the next binade by itself; past the largest finite number it
stops at infinity. -/
def roundMagnitude (f : Format) (num den : Nat) : Nat :=
  if num = 0 then 0
  else
    let scale := max (quotientLog num den - f.fractionBits) f.leastScale
    let point := roundQuotient (num * 2 ^ (-scale).toNat) (den * 2 ^ scale.toNat)
    min ((scale - f.leastScale).toNat * 2 ^ f.fractionBits + point) f.infinity

/-- Magnitude bits of the product of two finite magnitudes, rounded once. -/
def product (f : Format) (a b : Nat) : Nat :=
  let (m, q) := f.significand a
  let (n, r) := f.significand b
  f.roundMagnitude (m * n * 2 ^ (q + r).toNat) (2 ^ (-(q + r)).toNat)

/-- Magnitude bits of the quotient of two finite magnitudes, the second not
zero, rounded once. -/
def quotient (f : Format) (a b : Nat) : Nat :=
  let (m, q) := f.significand a
  let (n, r) := f.significand b
  f.roundMagnitude (m * 2 ^ (q - r).toNat) (n * 2 ^ (r - q).toNat)

/-- The pattern nearest to a signed quotient. -/
def ofQuotient (f : Format) (negative : Bool) (num den : Nat) : Nat :=
  f.signBit negative + f.roundMagnitude num den

/-- The pattern nearest to an integer. -/
def ofInt (f : Format) (i : Int) : Nat :=
  f.ofQuotient (decide (i < 0)) i.natAbs 1

/-- The pattern nearest to a datum. -/
def ofDatum (f : Format) : Datum → Nat
  | .nan => f.quietNaN
  | .infinite negative => f.signBit negative + f.infinity
  | .finite negative m q => f.ofQuotient negative (m * 2 ^ q.toNat) (2 ^ (-q).toNat)

/-- A pattern of format `f` moved to format `g`: exact when `g` is wider, one
rounding when it is narrower. -/
def convert (f g : Format) (bits : Nat) : Nat := g.ofDatum (f.decode bits)

end Format

/-- The integer below a magnitude: `m * 2 ^ q` without its fraction. -/
def wholePart (m : Nat) (q : Int) : Nat := m * 2 ^ q.toNat / 2 ^ (-q).toNat

/-- Truncation toward zero, held inside `[lo, hi]`; NaN gives `0`. -/
def Datum.truncate (lo hi : Int) : Datum → Int
  | .nan => 0
  | .infinite negative => if negative then lo else hi
  | .finite negative m q =>
      let whole : Int := wholePart m q
      max lo (min hi (if negative then -whole else whole))

end Relayout
