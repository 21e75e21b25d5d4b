import TemplateCache.Hash.Content

/-!
# Content hashes as JSON

A hash is written as a compact array of its sixteen bytes. Reading takes any array of exactly
sixteen integers below 256, with blanks wherever JSON allows them, and nothing before or after.
-/

namespace TemplateCache.ContentHash

/-- The decimal digits of a number. -/
def decimal (n : Nat) : List Char := Nat.toDigits 10 n

/-- The items of an array, separated by commas. -/
def jsonItems : Bytes → List Char
  | [] => []
  | [b] => decimal b.toNat
  | b :: rest => decimal b.toNat ++ ',' :: jsonItems rest

/-- A compact array, the bytes in the order of the hexadecimal digits. -/
def json (h : ContentHash) : List Char := '[' :: jsonItems h.bytes ++ [']']

/-! ## Reading -/

/-- What JSON skips between tokens. -/
def isBlank (c : Char) : Bool := c = ' ' || c = '\t' || c = '\n' || c = '\r'

/-- The bytes of an array: digits without a superfluous zero, each below 256. -/
inductive Token where
  | opening | closing | comma
  | number (value : Nat)
  deriving DecidableEq, Repr

/-- The number that a run of digits writes, unless it starts with a superfluous zero. -/
def number? (digits : List Char) : Option Nat :=
  match digits with
  | ['0'] => some 0
  | '0' :: _ => none
  | _ => some (digits.foldl (fun n c => 10 * n + (c.toNat - 48)) 0)

/-- The token for a mark that stands for itself. -/
def mark? : Char → Option Token
  | '[' => some .opening
  | ']' => some .closing
  | ',' => some .comma
  | _ => none

/-- The tokens of a text; `digits` are those of an unfinished number, in order. -/
def tokens? : List Char → List Char → Option (List Token)
  | [], [] => some []
  | digits, [] => (number? digits).map fun n => [.number n]
  | digits, c :: rest =>
      if c.isDigit then tokens? (digits ++ [c]) rest
      else do
        let before ← if digits = [] then some [] else (number? digits).map fun n => [.number n]
        let here ← if isBlank c then some [] else (mark? c).map fun t => [t]
        let after ← tokens? [] rest
        return before ++ here ++ after

/-- The numbers of a comma-separated list that ends with the closing bracket and the text. -/
def items? : List Token → Option (List Nat)
  | [.number n, .closing] => some [n]
  | .number n :: .comma :: rest => (items? rest).map (n :: ·)
  | _ => none

/-- The hash that a JSON text writes. -/
def ofJson? (text : List Char) : Option ContentHash := do
  match ← tokens? [] text with
  | .opening :: rest =>
      let numbers ← items? rest
      if h : numbers.length = 16 then
        if numbers.all (· < 256) then
          some ⟨numbers.map UInt8.ofNat, by simp [h]⟩
        else none
      else none
  | _ => none

end TemplateCache.ContentHash
