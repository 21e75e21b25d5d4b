import TemplateCache.Proofs.Hash.Text

/-!
# Spellings of a hash

The text of a hash has small digits only. Digits of either case spell a hash all the same: any 32 of
them become the text of a hash when the capitals are made small, and they are that text as they
stand if there is no capital among them (`exists_spelledBy_iff`, `SpelledBy.eq_text_iff`).

Two digits stand for a byte, so hashes have the same first digits when they have the same first
bytes (`short_eq_iff`).
-/

namespace TemplateCache

namespace Bytes

/-! ## Digits of either case -/

theorem toLower_of_not_isUpper {c : Char} (h : c.isUpper = false) : c.toLower = c :=
  dif_neg (of_decide_eq_false h)

theorem hexDigit_bounds {a : Nat} (ha : a < 16) :
    (hexDigit a).toNat < 128 ∧ (hexDigit a).isUpper = false := by
  have hall : ∀ a < 16, (hexDigit a).toNat < 128 ∧ (hexDigit a).isUpper = false := by decide
  exact hall a ha

theorem exists_hexDigit_of_mem_hex {c : Char} {bytes : Bytes} (h : c ∈ hex bytes) :
    ∃ a < 16, c = hexDigit a := by
  induction bytes with
  | nil => simp [hex] at h
  | cons b rest ih =>
      have hb := b.toNat_lt
      simp only [hex, List.mem_cons] at h
      rcases h with rfl | rfl | h
      · exact ⟨_, by omega, rfl⟩
      · exact ⟨_, by omega, rfl⟩
      · exact ih h

/-- A digit of either case is one that a text can have, when it is made small. -/
theorem isHexDigit_iff_toLower {c : Char} :
    ArtifactName.isHexDigit c = true ↔ ∃ a < 16, c.toLower = hexDigit a := by
  -- all digits are below 128, where there are few enough characters to try each
  have hall : ∀ n < 128, (ArtifactName.isHexDigit (Char.ofNat n) = true ↔
      ∃ a < 16, (Char.ofNat n).toLower = hexDigit a) := by decide +kernel
  by_cases hc : c.toNat < 128
  · have hsmall := hall c.toNat hc
    rwa [Char.ofNat_toNat] at hsmall
  · have hbeyond : ∀ {d : Char}, d.toNat < 128 → ¬c ≤ d := fun hd hle =>
      hc (Nat.lt_of_le_of_lt hle hd)
    constructor
    · intro hdigit
      simp only [ArtifactName.isHexDigit, Char.isDigit, Bool.or_eq_true, Bool.and_eq_true,
        decide_eq_true_eq] at hdigit
      rcases hdigit with (⟨-, hle⟩ | ⟨-, hle⟩) | ⟨-, hle⟩
      · exact absurd hle (hbeyond (d := '9') (by decide))
      · exact absurd hle (hbeyond (by decide))
      · exact absurd hle (hbeyond (by decide))
    · rintro ⟨a, ha, hlower⟩
      have hupper : c.isUpper = false := by
        refine decide_eq_false fun h => ?_
        exact absurd h.2 (hbeyond (d := 'Z') (by decide))
      rw [toLower_of_not_isUpper hupper] at hlower
      exact absurd (hlower ▸ (hexDigit_bounds ha).1) hc

/-- Digits of either case, two for each byte, become the text of some bytes. -/
theorem exists_hex_eq_toLower {digits : List Char} {k : Nat} (hlen : digits.length = 2 * k)
    (hdigits : ∀ c ∈ digits, ArtifactName.isHexDigit c = true) :
    ∃ bytes : Bytes, bytes.length = k ∧ hex bytes = digits.map Char.toLower := by
  induction k generalizing digits with
  | zero =>
      obtain rfl := List.length_eq_zero_iff.mp hlen
      exact ⟨[], rfl, rfl⟩
  | succ k ih =>
      match digits, hlen with
      | high :: low :: rest, hlen =>
          obtain ⟨a, ha, hhigh⟩ := isHexDigit_iff_toLower.mp (hdigits high (by simp))
          obtain ⟨b, hb, hlow⟩ := isHexDigit_iff_toLower.mp (hdigits low (by simp))
          have hrest : rest.length = 2 * k := by
            simp only [List.length_cons] at hlen
            omega
          obtain ⟨bytes, hbytes, hhex⟩ := ih hrest fun c hc => hdigits c (by simp [hc])
          have hbyte : (UInt8.ofNat (16 * a + b)).toNat = 16 * a + b := by
            rw [UInt8.toNat_ofNat']
            omega
          have hquotient : (16 * a + b) / 16 = a := by omega
          have hremainder : (16 * a + b) % 16 = b := by omega
          refine ⟨UInt8.ofNat (16 * a + b) :: bytes, by rw [List.length_cons, hbytes], ?_⟩
          rw [hex, hbyte, hhex, hquotient, hremainder, List.map_cons, List.map_cons, hhigh, hlow]

/-- The first bytes have the first digits. -/
theorem hex_take (bytes : Bytes) (k : Nat) : hex (bytes.take k) = (hex bytes).take (2 * k) := by
  induction k generalizing bytes with
  | zero => rfl
  | succ k ih =>
      cases bytes with
      | nil => rfl
      | cons b rest => simp [hex, ih, Nat.mul_succ]

end Bytes

namespace ContentHash

/-! ## Spellings -/

/-- Digits that become the text of a hash when the capitals among them are made small. -/
def SpelledBy (h : ContentHash) (digits : List Char) : Prop := digits.map Char.toLower = h.text

theorem not_isUpper_of_mem_text {c : Char} {h : ContentHash} (hc : c ∈ h.text) :
    c.isUpper = false := by
  obtain ⟨a, ha, rfl⟩ := Bytes.exists_hexDigit_of_mem_hex hc
  exact (Bytes.hexDigit_bounds ha).2

/-- Any 32 digits of either case spell a hash, and nothing else does. -/
theorem exists_spelledBy_iff {digits : List Char} :
    (∃ h : ContentHash, h.SpelledBy digits) ↔
      digits.length = 32 ∧ ∀ c ∈ digits, ArtifactName.isHexDigit c = true := by
  constructor
  · rintro ⟨h, hspelled⟩
    have hlen := congrArg List.length hspelled
    rw [List.length_map, length_text] at hlen
    refine ⟨hlen, fun c hc => Bytes.isHexDigit_iff_toLower.mpr ?_⟩
    exact Bytes.exists_hexDigit_of_mem_hex (hspelled ▸ List.mem_map_of_mem hc)
  · rintro ⟨hlen, hdigits⟩
    obtain ⟨bytes, hbytes, hhex⟩ := Bytes.exists_hex_eq_toLower (k := 16) hlen hdigits
    exact ⟨⟨bytes, hbytes⟩, hhex.symm⟩

namespace SpelledBy

variable {h : ContentHash} {digits : List Char}

theorem map_toLower (hsmall : ∀ c ∈ digits, c.isUpper = false) :
    digits.map Char.toLower = digits :=
  (List.map_congr_left fun c hc => Bytes.toLower_of_not_isUpper (hsmall c hc)).trans
    (List.map_id digits)

theorem text (h : ContentHash) : h.SpelledBy h.text :=
  map_toLower fun _ => not_isUpper_of_mem_text

/-- What spells a hash is its text if it has no capitals, and only then. -/
theorem eq_text_iff (hspelled : h.SpelledBy digits) :
    digits = h.text ↔ ∀ c ∈ digits, c.isUpper = false := by
  constructor
  · rintro rfl c hc
    exact not_isUpper_of_mem_text hc
  · intro hsmall
    exact (map_toLower hsmall).symm.trans hspelled

end SpelledBy

/-! ## First digits -/

/-- Hashes with the same first digits are those with the same first bytes. -/
theorem short_eq_iff {g h : ContentHash} {k : Nat} :
    g.short (2 * k) = h.short (2 * k) ↔ g.bytes.take k = h.bytes.take k := by
  unfold short ContentHash.text
  rw [← Bytes.hex_take, ← Bytes.hex_take]
  exact ⟨Bytes.hex_injective, congrArg _⟩

end ContentHash

end TemplateCache
