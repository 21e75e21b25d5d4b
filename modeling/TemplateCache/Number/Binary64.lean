/-!
# Binary floating-point numbers of 64 bits

A number is its 64 bits: a sign, eleven bits of exponent, 52 of fraction. In hexadecimal, thirteen
digits are the fraction and the three before them sign and exponent. A finite number is
`significand * 2 ^ power`, up to its sign. Comparison is that of the format: a NaN differs from
everything, and the two zeros are equal.
-/

namespace TemplateCache

/-- A floating-point number by its bits. -/
structure Binary64 where
  bits : UInt64
  deriving DecidableEq, Repr

namespace Binary64

def negative (f : Binary64) : Bool := 0x8000000000000000 ≤ f.bits.toNat

def exponentField (f : Binary64) : Nat := f.bits.toNat / 0x10000000000000 % 0x800

def fraction (f : Binary64) : Nat := f.bits.toNat % 0x10000000000000

def isNaN (f : Binary64) : Bool := f.exponentField == 2047 && f.fraction != 0

def isInfinite (f : Binary64) : Bool := f.exponentField == 2047 && f.fraction == 0

def isZero (f : Binary64) : Bool := f.exponentField == 0 && f.fraction == 0

/-- The integer that a finite number's power of two multiplies. -/
def significand (f : Binary64) : Nat :=
  if f.exponentField = 0 then f.fraction else 0x10000000000000 + f.fraction

/-- The exponent of two of a finite number. -/
def power (f : Binary64) : Int :=
  if f.exponentField = 0 then -1074 else (f.exponentField : Int) - 1075

/-- The bits of the number with a sign and the remaining 63 bits. -/
def ofMagnitude (negative : Bool) (magnitude : Nat) : Binary64 :=
  ⟨UInt64.ofNat (magnitude + if negative then 0x8000000000000000 else 0)⟩

/-- The 63 bits of an infinity. -/
def infiniteMagnitude : Nat := 0x7FF0000000000000

def infinity (negative : Bool) : Binary64 := ofMagnitude negative infiniteMagnitude

def nan (negative : Bool) : Binary64 := ofMagnitude negative 0x7FF8000000000000

/-- Equality of numbers, not of bits. -/
def equal (f g : Binary64) : Bool :=
  !f.isNaN && !g.isNaN && (f.bits == g.bits || (f.isZero && g.isZero))

end Binary64

end TemplateCache
