/-!
# Byte strings

File contents, file names and paths are byte strings; text is one way to write them. This
module fixes the type and the two number forms the rest of the library uses on bytes:
little-endian numbers, where the first byte counts least, and hexadecimal text, two lower-case
digits a byte.
-/

namespace TemplateCache

/-- File contents, names and paths alike. -/
abbrev Bytes := List UInt8

namespace Bytes

/-! ## Numbers, least significant byte first -/

/-- The lowest `count` bytes of a number, least significant first. -/
def littleEndian : Nat → Nat → Bytes
  | 0, _ => []
  | count + 1, n => UInt8.ofNat n :: littleEndian count (n / 256)

/-- The number that a byte string writes, least significant byte first. -/
def ofLittleEndian : Bytes → Nat
  | [] => 0
  | b :: rest => b.toNat + 256 * ofLittleEndian rest

@[simp] theorem length_littleEndian (count n : Nat) : (littleEndian count n).length = count := by
  induction count generalizing n with
  | zero => rfl
  | succ count ih => simp [littleEndian, ih]

/-! ## Hexadecimal text -/

/-- The lower-case digit of a number below sixteen. -/
def hexDigit (n : Nat) : Char :=
  if n < 10 then Char.ofNat (48 + n) else Char.ofNat (87 + n)

/-- Two digits a byte, the high half first. -/
def hex : Bytes → List Char
  | [] => []
  | b :: rest => hexDigit (b.toNat / 16) :: hexDigit (b.toNat % 16) :: hex rest

@[simp] theorem length_hex (bytes : Bytes) : (hex bytes).length = 2 * bytes.length := by
  induction bytes with
  | nil => rfl
  | cons b rest ih => simp only [hex, List.length_cons, ih]; omega

/-! ## Letters -/

/-- Small Latin letters become capitals; every other byte stays. -/
def upper (bytes : Bytes) : Bytes :=
  bytes.map fun b => if 97 ≤ b ∧ b ≤ 122 then b - 32 else b

end Bytes

end TemplateCache
