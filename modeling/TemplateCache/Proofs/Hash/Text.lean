import TemplateCache.Artifact.Name

/-!
# The text of a hash

The hexadecimal text of a byte string determines the bytes, and consists of digits alone. Hence
two hashes with the same text are the same.
-/

namespace TemplateCache

namespace Bytes

/-! ## Digits -/

/-- The digits in order; what follows is about sixteen numbers and checked for each. -/
theorem hexDigit_injective {a b : Nat} (ha : a < 16) (hb : b < 16)
    (h : hexDigit a = hexDigit b) : a = b := by
  have hall : ∀ a < 16, ∀ b < 16, hexDigit a = hexDigit b → a = b := by decide
  exact hall a ha b hb h

theorem isHexDigit_hexDigit {a : Nat} (ha : a < 16) :
    ArtifactName.isHexDigit (hexDigit a) = true := by
  have hall : ∀ a < 16, ArtifactName.isHexDigit (hexDigit a) = true := by decide
  exact hall a ha

theorem hex_injective {a b : Bytes} (h : hex a = hex b) : a = b := by
  induction a generalizing b with
  | nil =>
      cases b with
      | nil => rfl
      | cons c rest => simp [hex] at h
  | cons x more ih =>
      cases b with
      | nil => simp [hex] at h
      | cons y rest =>
          simp only [hex, List.cons.injEq] at h
          obtain ⟨hhigh, hlow, hrest⟩ := h
          have hx := x.toNat_lt
          have hy := y.toNat_lt
          have hhigh := hexDigit_injective (by omega) (by omega) hhigh
          have hlow := hexDigit_injective (by omega) (by omega) hlow
          have hxy : x = y := UInt8.toNat_inj.mp (by omega)
          rw [hxy, ih hrest]

theorem isHexDigit_of_mem_hex {c : Char} {bytes : Bytes} (h : c ∈ hex bytes) :
    ArtifactName.isHexDigit c = true := by
  induction bytes with
  | nil => simp [hex] at h
  | cons b rest ih =>
      have hb := b.toNat_lt
      simp only [hex, List.mem_cons] at h
      rcases h with rfl | rfl | h
      · exact isHexDigit_hexDigit (by omega)
      · exact isHexDigit_hexDigit (by omega)
      · exact ih h

end Bytes

namespace ContentHash

theorem text_injective {g h : ContentHash} (e : g.text = h.text) : g = h :=
  ext (Bytes.hex_injective e)

theorem isHexDigit_of_mem_text {c : Char} {h : ContentHash} (hc : c ∈ h.text) :
    ArtifactName.isHexDigit c = true := Bytes.isHexDigit_of_mem_hex hc

theorem length_short {h : ContentHash} {digits : Nat} (hd : digits ≤ 32) :
    (h.short digits).length = digits := by
  simp [short, hd]

theorem isHexDigit_of_mem_short {c : Char} {h : ContentHash} {digits : Nat}
    (hc : c ∈ h.short digits) : ArtifactName.isHexDigit c = true :=
  isHexDigit_of_mem_text (List.mem_of_mem_take hc)

end ContentHash

end TemplateCache
