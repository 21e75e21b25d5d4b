import TemplateCache.Bytes.Basic

/-!
# UTF-8

Text as bytes and bytes as text. Paths and file names are arbitrary bytes, so reading must say
what it does where the bytes are no text: a byte string splits into characters and *stray*
pieces, each stray piece being as long a beginning of some character as stands there, or one
byte that begins none. Strict reading refuses stray pieces, lenient reading puts one
replacement character for each.
-/

namespace TemplateCache.Utf8

/-! ## Writing -/

/-- The one to four bytes of a character. -/
def encodeChar (c : Char) : Bytes :=
  let n := c.toNat
  if n < 0x80 then [UInt8.ofNat n]
  else if n < 0x800 then [UInt8.ofNat (0xC0 + n / 64), UInt8.ofNat (0x80 + n % 64)]
  else if n < 0x10000 then
    [UInt8.ofNat (0xE0 + n / 4096), UInt8.ofNat (0x80 + n / 64 % 64), UInt8.ofNat (0x80 + n % 64)]
  else
    [UInt8.ofNat (0xF0 + n / 262144), UInt8.ofNat (0x80 + n / 4096 % 64),
     UInt8.ofNat (0x80 + n / 64 % 64), UInt8.ofNat (0x80 + n % 64)]

/-- The bytes of a text. -/
def encode (text : List Char) : Bytes := text.flatMap encodeChar

/-- The bytes of a string. -/
def ofString (text : String) : Bytes := encode text.toList

/-! ## Reading -/

/-- A character of which some bytes are still to come: those seen, the value so far, how many
are owed, and the range in which the next one must lie. -/
structure Unfinished where
  seen : Bytes
  value : Nat
  owed : Nat
  low : UInt8
  high : UInt8

/-- What the first byte of a character says. -/
inductive Lead where
  | whole (c : Char)
  | part (u : Unfinished)
  | none

/-- The reading of a byte that stands where a character begins. Bytes that would begin an
overlong form, a surrogate or a value past the last character begin nothing. -/
def lead (b : UInt8) : Lead :=
  if b < 0x80 then .whole (Char.ofNat b.toNat)
  else if b < 0xC2 then .none
  else if b < 0xE0 then .part ⟨[b], b.toNat - 0xC0, 1, 0x80, 0xBF⟩
  else if b = 0xE0 then .part ⟨[b], 0, 2, 0xA0, 0xBF⟩
  else if b = 0xED then .part ⟨[b], 13, 2, 0x80, 0x9F⟩
  else if b < 0xF0 then .part ⟨[b], b.toNat - 0xE0, 2, 0x80, 0xBF⟩
  else if b = 0xF0 then .part ⟨[b], 0, 3, 0x90, 0xBF⟩
  else if b < 0xF4 then .part ⟨[b], b.toNat - 0xF0, 3, 0x80, 0xBF⟩
  else if b = 0xF4 then .part ⟨[b], 4, 3, 0x80, 0x8F⟩
  else .none

/-- A piece of a byte string: a character, or bytes that are none. -/
inductive Piece where
  | char (c : Char)
  | stray (bytes : Bytes)
  deriving DecidableEq, Repr

/-- The pieces of a byte string, after the bytes of an unfinished character, if any. -/
def piecesFrom : Option Unfinished → Bytes → List Piece
  | none, [] => []
  | some u, [] => [.stray u.seen]
  | none, b :: rest =>
      match lead b with
      | .whole c => .char c :: piecesFrom none rest
      | .part u => piecesFrom (some u) rest
      | .none => .stray [b] :: piecesFrom none rest
  | some u, b :: rest =>
      if u.low ≤ b ∧ b ≤ u.high then
        let value := 64 * u.value + (b.toNat - 0x80)
        if u.owed = 1 then .char (Char.ofNat value) :: piecesFrom none rest
        else piecesFrom (some ⟨u.seen ++ [b], value, u.owed - 1, 0x80, 0xBF⟩) rest
      else
        .stray u.seen ::
          match lead b with
          | .whole c => .char c :: piecesFrom none rest
          | .part v => piecesFrom (some v) rest
          | .none => .stray [b] :: piecesFrom none rest

/-- The characters and stray pieces of a byte string, in order. -/
def pieces (bytes : Bytes) : List Piece := piecesFrom none bytes

/-- The characters of pieces that are all characters. -/
def chars? : List Piece → Option (List Char)
  | [] => some []
  | .char c :: rest => (chars? rest).map (c :: ·)
  | .stray _ :: _ => none

/-- The text that the bytes are, if they are text. -/
def decode? (bytes : Bytes) : Option (List Char) := chars? (pieces bytes)

/-- What stands for a stray piece. -/
def replacement : Char := '\uFFFD'

/-- The character shown for a piece. -/
def Piece.shown : Piece → Char
  | .char c => c
  | .stray _ => replacement

/-- The text of the bytes with one replacement character for each stray piece. -/
def decodeLenient (bytes : Bytes) : List Char := (pieces bytes).map Piece.shown

end TemplateCache.Utf8
