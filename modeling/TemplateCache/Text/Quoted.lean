import TemplateCache.Text.Utf8
import TemplateCache.Text.Visible

/-!
# Quoted text

Text between double quotes, for messages: quotes, backslashes and the usual controls are written
with a backslash, any other character that would not be visible by its number, and a byte that
belongs to no character by its two hexadecimal digits.
-/

namespace TemplateCache.Quoted

/-- The hexadecimal digits of a number, as few as it needs. -/
def hexNumber (n : Nat) : List Char := Nat.toDigits 16 n

/-- How a character is written between quotes. -/
def char (c : Char) : List Char :=
  if c = '\x00' then ['\\', '0']
  else if c = '\t' then ['\\', 't']
  else if c = '\r' then ['\\', 'r']
  else if c = '\n' then ['\\', 'n']
  else if c = '"' then ['\\', '"']
  else if c = '\\' then ['\\', '\\']
  else if Visible.isVisible c then [c]
  else ['\\', 'u', '{'] ++ hexNumber c.toNat ++ ['}']

/-- How a byte that belongs to no character is written between quotes. -/
def byte (b : UInt8) : List Char :=
  ['\\', 'x', (Bytes.hexDigit (b.toNat / 16)).toUpper, (Bytes.hexDigit (b.toNat % 16)).toUpper]

/-- How a piece of a byte string is written between quotes. -/
def piece : Utf8.Piece → List Char
  | .char c => char c
  | .stray bytes => bytes.flatMap byte

/-- A text between quotes. -/
def text (s : List Char) : List Char := '"' :: s.flatMap char ++ ['"']

/-- A byte string between quotes. -/
def bytes (b : Bytes) : List Char := '"' :: (Utf8.pieces b).flatMap piece ++ ['"']

end TemplateCache.Quoted
