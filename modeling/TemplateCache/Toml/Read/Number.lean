import TemplateCache.Toml.Read.Quoted
import TemplateCache.Toml.Value

/-!
# Reading numbers

Integers in base ten, sixteen, eight and two, and floating-point numbers. An underscore may
stand between two digits. An integer must fit in 64 bits; a floating-point number above the
largest one is refused, one below the smallest is the negative infinity.
-/

namespace TemplateCache.Toml.Read

/-- Whether every underscore has a digit on each side; `digit` tells whether one came just
before. -/
def wellSpaced : Bool → List Char → Bool
  | digit, [] => digit
  | digit, c :: rest => if c = '_' then digit && wellSpaced false rest else wellSpaced true rest

/-- Digits with underscores between them: the digits alone, and what follows. -/
def digitRun? (isDigit : Char → Bool) (text : List Char) : Option (List Char × List Char) :=
  let isPart := fun c => isDigit c || c == '_'
  let part := text.takeWhile isPart
  if wellSpaced false part then some (part.filter (· != '_'), text.dropWhile isPart) else none

/-- A sign, if there is one: whether the number is negative, and what follows. -/
def sign : List Char → Bool × List Char
  | '+' :: rest => (false, rest)
  | '-' :: rest => (true, rest)
  | text => (false, text)

/-- The digits of a number's whole part: a zero does not lead others. -/
def wholePart? (text : List Char) : Option (List Char × List Char) :=
  match digitRun? Char.isDigit text with
  | some ('0' :: _ :: _, _) => none
  | other => other

/-- The digits after a point, if one stands first. -/
def fractionPart? : List Char → Option (List Char × List Char)
  | '.' :: rest => digitRun? Char.isDigit rest
  | text => some ([], text)

/-- The exponent after its letter, if one stands first. -/
def exponentPart? (text : List Char) : Option (Option Int × List Char) :=
  match text with
  | c :: rest =>
      if c = 'e' ∨ c = 'E' then do
        let (negative, rest) := sign rest
        let (digits, rest) ← digitRun? Char.isDigit rest
        let value : Int := Decimal.ofDigits 10 digits
        return (some (if negative then -value else value), rest)
      else some (none, text)
  | [] => some (none, text)

/-- An integer as a value, if it fits. -/
def integer? (n : Int) : Option Scalar :=
  if -0x8000000000000000 ≤ n ∧ n < 0x8000000000000000 then some (.integer (Int64.ofInt n)) else none

/-- A floating-point number as a value, unless it is too large. -/
def float? (f : Binary64) : Option Scalar :=
  if f.isInfinite ∧ !f.negative then none else some (.float f)

/-- An integer in another base after its mark. -/
def based? (base : Nat) (isDigit : Char → Bool) (text : List Char) :
    Option (Scalar × List Char) := do
  let (digits, rest) ← digitRun? isDigit text
  return (← integer? (Decimal.ofDigits base digits), rest)

def isOctalDigit (c : Char) : Bool := '0' ≤ c && c ≤ '7'

def isBinaryDigit (c : Char) : Bool := c == '0' || c == '1'

def isHexDigit (c : Char) : Bool := (hexValue? c).isSome

/-- A number in base ten after its sign. -/
def decimal? (negative : Bool) (text : List Char) : Option (Scalar × List Char) := do
  let (whole, rest) ← wholePart? text
  let hasPoint := rest.head? == some '.'
  let (fraction, rest) ← fractionPart? rest
  let (exponent, rest) ← exponentPart? rest
  let value := Decimal.ofDigits 10 (whole ++ fraction)
  if hasPoint ∨ exponent.isSome then
    let f := Decimal.nearest negative value (exponent.getD 0 - (fraction.length : Nat))
    return (← float? f, rest)
  else
    return (← integer? (if negative then -(value : Int) else value), rest)

/-- A number of any kind. -/
def number? (text : List Char) : Option (Scalar × List Char) :=
  match text with
  | '0' :: 'x' :: rest => based? 16 isHexDigit rest
  | '0' :: 'o' :: rest => based? 8 isOctalDigit rest
  | '0' :: 'b' :: rest => based? 2 isBinaryDigit rest
  | _ =>
      let (negative, rest) := sign text
      match rest with
      | 'i' :: 'n' :: 'f' :: rest => some (.float (.infinity negative), rest)
      | 'n' :: 'a' :: 'n' :: rest => some (.float (.nan negative), rest)
      | _ => decimal? negative rest

end TemplateCache.Toml.Read
