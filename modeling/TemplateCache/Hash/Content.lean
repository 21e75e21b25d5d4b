import TemplateCache.Hash.Xxh3

/-!
# Content hashes

A content hash is the sixteen bytes of an XXH3 digest, least significant first. Several parts
are hashed together by framing them: each part is preceded by its length in eight bytes, so no
two lists of parts hash the same bytes. The text of a hash is its hexadecimal form, 32 digits.
-/

namespace TemplateCache

/-- Sixteen bytes that identify a piece of content. -/
structure ContentHash where
  bytes : Bytes
  length_bytes : bytes.length = 16
  deriving DecidableEq

namespace ContentHash

theorem ext {g h : ContentHash} (eq : g.bytes = h.bytes) : g = h := by
  cases g; cases h; cases eq; rfl

/-- The sixteen bytes of a digest, the low word first, least significant byte first. -/
def ofPair (digest : Xxh3.Pair) : ContentHash where
  bytes := Bytes.littleEndian 8 digest.low.toNat ++ Bytes.littleEndian 8 digest.high.toNat
  length_bytes := by simp

/-- The hash of a byte string. -/
def ofBytes (data : Bytes) : ContentHash := ofPair (Xxh3.hash ⟨data.toArray⟩)

/-- Every part preceded by its length in eight bytes, least significant first. -/
def frame (parts : List Bytes) : Bytes :=
  parts.flatMap fun part => Bytes.littleEndian 8 part.length ++ part

/-- The hash of a list of parts: that of its frame. -/
def ofParts (parts : List Bytes) : ContentHash := ofBytes (frame parts)

/-- The 32 hexadecimal digits of a hash. -/
def text (h : ContentHash) : List Char := Bytes.hex h.bytes

/-- The leading digits of a hash; more than there are gives all of them. -/
def short (h : ContentHash) (digits : Nat) : List Char := h.text.take digits

@[simp] theorem length_text (h : ContentHash) : h.text.length = 32 := by
  simp [text, h.length_bytes]

/-- The form shown to a developer: eight digits in the type's name. -/
def describe (h : ContentHash) : String := "ContentHash(" ++ String.ofList (h.short 8) ++ ")"

end ContentHash

end TemplateCache
