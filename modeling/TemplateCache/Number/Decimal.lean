import TemplateCache.Number.Binary64

/-!
# Floating-point numbers in decimal

Both directions between decimal and binary, in exact arithmetic on natural numbers.

Reading rounds to the nearest number, a tie to the even significand; what is too large becomes
infinite. Writing picks the fewest digits that read back as the same number, of those the
nearest to it, and of two equally near the larger.
-/

namespace TemplateCache.Decimal

/-! ## Digits of natural numbers -/

/-- The decimal digits of a natural number. -/
def digits (n : Nat) : List Char := Nat.toDigits 10 n

/-- The digits of a number after as many zeros as make a given width. -/
def padded (width n : Nat) : List Char :=
  List.replicate (width - (digits n).length) '0' ++ digits n

/-- An integer with its sign, if negative. -/
def signed (n : Int) : List Char :=
  if n < 0 then '-' :: digits n.natAbs else digits n.natAbs

/-- The value of a digit. -/
def digitValue (c : Char) : Nat :=
  if c.isDigit then c.toNat - 48
  else if 'a' ≤ c ∧ c ≤ 'z' then c.toNat - 87
  else c.toNat - 55

/-- The number that digits write in a base. -/
def ofDigits (base : Nat) (digits : List Char) : Nat :=
  digits.foldl (fun n c => base * n + digitValue c) 0

/-! ## Reading -/

/-- A quotient rounded to the nearest natural number, a tie to the even one. -/
def roundEven (num den : Nat) : Nat :=
  let q := num / den
  let r := num % den
  if 2 * r < den then q
  else if den < 2 * r then q + 1
  else q + q % 2

/-- The exponent of the largest power of two that is not above a quotient. -/
def floorLog2 (num den : Nat) : Int :=
  let estimate : Int := (Nat.log2 num : Int) - Nat.log2 den
  if den * Nat.pow 2 estimate.toNat ≤ num * Nat.pow 2 (-estimate).toNat then estimate
  else estimate - 1

/-- The 63 bits of the number nearest to a positive quotient. Counting significands upwards
carries into the exponent field, so rounding up to the next power of two needs no case. -/
def magnitude (num den : Nat) : Nat :=
  let power : Int := max (floorLog2 num den - 52) (-1074)
  let significand := roundEven (num * Nat.pow 2 (-power).toNat) (den * Nat.pow 2 power.toNat)
  min ((power + 1074).toNat * 0x10000000000000 + significand) Binary64.infiniteMagnitude

/-- The number nearest to `mantissa * 10 ^ exponent`. Exponents far outside the range of the
format are decided by the number of digits alone. -/
def nearest (negative : Bool) (mantissa : Nat) (exponent : Int) : Binary64 :=
  let size : Int := (digits mantissa).length + exponent
  if mantissa = 0 then .ofMagnitude negative 0
  else if 310 < size then .infinity negative
  else if size < -330 then .ofMagnitude negative 0
  else .ofMagnitude negative
    (magnitude (mantissa * Nat.pow 10 exponent.toNat) (Nat.pow 10 (-exponent).toNat))

/-! ## Writing -/

/-- A decimal number: an integer and the power of ten that multiplies it. -/
structure Scaled where
  mantissa : Nat
  exponent : Int
  deriving DecidableEq, Repr

/-- The interval of real numbers that read as a given number: bounds and the number itself as
multiples of one power of two, and whether the bounds belong to it. -/
structure Interval where
  low : Nat
  value : Nat
  high : Nat
  power : Int
  closed : Bool

/-- The numbers that read as a finite number. Below a power of two the numbers are twice as
dense. -/
def Interval.of (f : Binary64) : Interval :=
  let m := f.significand
  let below := if f.exponentField ≠ 0 ∧ f.fraction = 0 then 1 else 2
  ⟨4 * m - below, 4 * m, 4 * m + 2, f.power - 2, m % 2 == 0⟩

/-- One decimal digit position: a decimal integer `d` there is worth `d * weight` where the
interval's numbers are worth their multiple of `unit`. -/
structure Position where
  weight : Nat
  unit : Nat

def Position.of (i : Interval) (exponent : Int) : Position :=
  ⟨Nat.pow 10 exponent.toNat * Nat.pow 2 (-i.power).toNat,
    Nat.pow 2 i.power.toNat * Nat.pow 10 (-exponent).toNat⟩

/-- Whether a decimal integer at a position reads as the interval's number. -/
def Interval.holds (i : Interval) (p : Position) (d : Nat) : Bool :=
  if i.closed then i.low * p.unit ≤ d * p.weight && d * p.weight ≤ i.high * p.unit
  else i.low * p.unit < d * p.weight && d * p.weight < i.high * p.unit

/-- Of the two decimal integers next to the number at a position, the one to write. -/
def Interval.candidate? (i : Interval) (exponent : Int) : Option Scaled :=
  let p := Position.of i exponent
  let down := i.value * p.unit / p.weight
  let below := i.value * p.unit - down * p.weight
  let above := (down + 1) * p.weight - i.value * p.unit
  match i.holds p down, i.holds p (down + 1) with
  | true, true => some ⟨if below < above then down else down + 1, exponent⟩
  | true, false => some ⟨down, exponent⟩
  | false, true => some ⟨down + 1, exponent⟩
  | false, false => none

/-- An exponent of ten not below that of the number's leading digit. -/
def Interval.leading (i : Interval) : Int :=
  let num := i.value * Nat.pow 2 i.power.toNat
  let den := Nat.pow 2 (-i.power).toNat
  if den ≤ num then ((digits (num / den)).length : Int)
  else 1 - ((digits (den / num)).length : Int)

/-- The fewest digits that read back as a finite number other than zero: positions are tried
from the left, and twenty are more than any number needs. -/
def shortest (f : Binary64) : Scaled :=
  let i := Interval.of f
  ((List.range 20).findSome? fun (step : Nat) => i.candidate? (i.leading - step)).getD ⟨0, 0⟩

/-- A decimal number without an exponent, with at least one digit on each side of the point. -/
def positional (s : Scaled) : List Char :=
  let ds := digits s.mantissa
  if 0 ≤ s.exponent then ds ++ List.replicate s.exponent.toNat '0' ++ ".0".toList
  else
    let places := (-s.exponent).toNat
    let wide := List.replicate (places + 1 - ds.length) '0' ++ ds
    wide.take (wide.length - places) ++ '.' :: wide.drop (wide.length - places)

/-- The text of a finite number. -/
def finiteText (f : Binary64) : List Char :=
  let body := if f.isZero then "0.0".toList else positional (shortest f)
  if f.negative then '-' :: body else body

/-- The text of an infinity. -/
def infiniteText (f : Binary64) : List Char := if f.negative then "-inf".toList else "inf".toList

end TemplateCache.Decimal
