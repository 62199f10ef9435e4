/-
# Binary floating-point formats

A format is given by the widths of its exponent and fraction fields.  A bit
pattern is a natural number below `2 ^ width`; `decode` reads it as a datum:
NaN, an infinity, or a sign with an exact value `significand * 2 ^ scale`.
All arithmetic on floats in this library goes through these exact values, so
nothing here rests on a machine float.
-/

namespace Relayout

/- A power is the core library's, whatever other instances are in scope. -/
attribute [local instance (high)] instPowNat

/-- A binary interchange format: one sign bit, then the exponent field, then
the fraction field. -/
structure Format where
  exponentBits : Nat
  fractionBits : Nat
deriving DecidableEq, Repr

/-- What a bit pattern stands for.  A finite datum is the exact value
`significand * 2 ^ scale`, negated when `negative` holds; both zeros are
finite with significand `0`. -/
inductive Datum where
  | nan
  | infinite (negative : Bool)
  | finite (negative : Bool) (significand : Nat) (scale : Int)
deriving DecidableEq, Repr

namespace Format

/-- Sixteen bits. -/
def half : Format := ⟨5, 10⟩

/-- Thirty-two bits. -/
def single : Format := ⟨8, 23⟩

/-- Sixty-four bits. -/
def double : Format := ⟨11, 52⟩

/-- Number of bits of a pattern. -/
def width (f : Format) : Nat := 1 + f.exponentBits + f.fractionBits

/-- The exponent field shared by infinities and NaNs. -/
def topExponent (f : Format) : Nat := 2 ^ f.exponentBits - 1

/-- The scale of the subnormal numbers, the finest grid of the format. -/
def leastScale (f : Format) : Int :=
  2 - 2 ^ (f.exponentBits - 1) - f.fractionBits

/-- The magnitude bits of an infinity: everything below is finite. -/
def infinity (f : Format) : Nat := f.topExponent * 2 ^ f.fractionBits

/-- The magnitude bits of the NaN that computations produce. -/
def quietNaN (f : Format) : Nat := f.infinity + 2 ^ (f.fractionBits - 1)

/-- The sign bit, as a number to add to magnitude bits. -/
def signBit (f : Format) (negative : Bool) : Nat :=
  if negative then 2 ^ (f.exponentBits + f.fractionBits) else 0

/-- Exponent and fraction fields together. -/
def magnitude (f : Format) (bits : Nat) : Nat :=
  bits % 2 ^ (f.exponentBits + f.fractionBits)

def isNegative (f : Format) (bits : Nat) : Bool :=
  bits / 2 ^ (f.exponentBits + f.fractionBits) % 2 == 1

def isNaN (f : Format) (bits : Nat) : Bool := f.infinity < f.magnitude bits

def isFinite (f : Format) (bits : Nat) : Bool := f.magnitude bits < f.infinity

/-- The exact reading of magnitude bits below `infinity`: a subnormal has no
hidden bit and the least scale, any other number has the hidden bit. -/
def significand (f : Format) (magnitude : Nat) : Nat × Int :=
  let exponent := magnitude / 2 ^ f.fractionBits
  let fraction := magnitude % 2 ^ f.fractionBits
  if exponent = 0 then (fraction, f.leastScale)
  else (2 ^ f.fractionBits + fraction, f.leastScale + (exponent - 1))

/-- What a bit pattern stands for. -/
def decode (f : Format) (bits : Nat) : Datum :=
  let magnitude := f.magnitude bits
  if f.infinity < magnitude then .nan
  else if magnitude = f.infinity then .infinite (f.isNegative bits)
  else
    let (m, q) := f.significand magnitude
    .finite (f.isNegative bits) m q

/-- Numeric equality of two patterns: NaN equals nothing, and the two zeros
equal each other. -/
def equal (f : Format) (a b : Nat) : Bool :=
  !f.isNaN a && !f.isNaN b &&
    (a == b || (f.magnitude a == 0 && f.magnitude b == 0))

end Format

end Relayout
