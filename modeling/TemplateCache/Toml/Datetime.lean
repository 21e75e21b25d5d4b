import TemplateCache.Number.Decimal

/-!
# Dates and times

A date-time has a date, a time, and an offset from universal time, each of which may be
missing. Its text is the usual one, the fraction of a second without trailing zeros.
-/

namespace TemplateCache.Toml

structure Date where
  year : Nat
  month : Nat
  day : Nat
  deriving DecidableEq, Repr

structure Time where
  hour : Nat
  minute : Nat
  second : Nat
  nanosecond : Nat
  deriving DecidableEq, Repr

/-- Universal time by name, or a difference from it in minutes. -/
inductive Offset where
  | utc
  | minutes (difference : Int)
  deriving DecidableEq, Repr

structure Datetime where
  date : Option Date
  time : Option Time
  offset : Option Offset
  deriving DecidableEq, Repr

namespace Date

def isLeapYear (year : Nat) : Bool := year % 4 == 0 && (year % 100 != 0 || year % 400 == 0)

def daysInMonth (year month : Nat) : Nat :=
  if month = 2 then if isLeapYear year then 29 else 28
  else if month = 4 ∨ month = 6 ∨ month = 9 ∨ month = 11 then 30
  else 31

/-- The month is one of twelve and has such a day in that year. -/
def valid (d : Date) : Bool :=
  1 ≤ d.month && d.month ≤ 12 && 1 ≤ d.day && d.day ≤ daysInMonth d.year d.month

def text (d : Date) : List Char :=
  Decimal.padded 4 d.year ++ '-' :: Decimal.padded 2 d.month ++ '-' :: Decimal.padded 2 d.day

end Date

namespace Time

/-- Nine digits of a fraction without the zeros at its end; nothing for a whole second. -/
def fractionText (nanosecond : Nat) : List Char :=
  if nanosecond = 0 then []
  else '.' :: ((Decimal.padded 9 nanosecond).reverse.dropWhile (· == '0')).reverse

def text (t : Time) : List Char :=
  Decimal.padded 2 t.hour ++ ':' :: Decimal.padded 2 t.minute ++ ':' :: Decimal.padded 2 t.second
    ++ fractionText t.nanosecond

/-- The nanoseconds that the digits of a fraction write; digits after the ninth are dropped. -/
def nanoseconds (digits : List Char) : Nat :=
  Decimal.ofDigits 10 (digits.take 9) * Nat.pow 10 (9 - (digits.take 9).length)

end Time

def Offset.text : Offset → List Char
  | .utc => ['Z']
  | .minutes m =>
      (if m < 0 then '-' else '+') :: Decimal.padded 2 (m.natAbs / 60)
        ++ ':' :: Decimal.padded 2 (m.natAbs % 60)

namespace Datetime

/-- Date, `T` and time, offset: what there is of them. -/
def text (d : Datetime) : List Char :=
  (d.date.map Date.text).getD []
    ++ (d.time.map fun t => if d.date.isSome then 'T' :: t.text else t.text).getD []
    ++ (d.offset.map Offset.text).getD []

end Datetime

end TemplateCache.Toml
