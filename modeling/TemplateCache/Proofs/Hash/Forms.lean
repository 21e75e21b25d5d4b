import TemplateCache.Proofs.Hash.Json
import TemplateCache.Proofs.Hash.Text

/-!
# The forms of a hash

A hash is written in two forms: as a text of 32 hexadecimal digits, which may be cut short, and as
an array of sixteen numbers in JSON. Both take the bytes in the same order, and both can be undone:
the text belongs to one hash (`text_injective`), and the array is read back (`ofJson?_json`).

What is cut off a text are digits, not bytes. Two of them stand for a byte, the high half first, so
a text with an odd number of digits ends in half a byte; hence all that is said about short texts is
said in terms of `digits`, the values of the digits one after another.
-/

namespace TemplateCache

namespace Bytes

/-- The values of the hexadecimal digits, two for each byte. -/
def digits (bytes : Bytes) : List Nat := bytes.flatMap fun b => [b.toNat / 16, b.toNat % 16]

theorem hex_eq_map_digits (bytes : Bytes) : hex bytes = (digits bytes).map hexDigit := by
  induction bytes with
  | nil => rfl
  | cons b rest ih =>
      rw [hex, ih]
      rfl

theorem digits_lt {bytes : Bytes} {d : Nat} (hd : d ∈ digits bytes) : d < 16 := by
  obtain ⟨b, -, hd⟩ := List.mem_flatMap.mp hd
  have hb := b.toNat_lt
  simp only [List.mem_cons, List.not_mem_nil, or_false] at hd
  omega

/-- The digits that a text of a hash consists of. -/
def lowerHexDigits : List Char := "0123456789abcdef".toList

theorem hexDigit_mem_lowerHexDigits {a : Nat} (ha : a < 16) : hexDigit a ∈ lowerHexDigits := by
  have hall : ∀ a < 16, hexDigit a ∈ lowerHexDigits := by decide
  exact hall a ha

end Bytes

namespace ContentHash

/-- The values of the 32 digits. -/
def digits (h : ContentHash) : List Nat := Bytes.digits h.bytes

theorem text_eq_map_digits (h : ContentHash) : h.text = h.digits.map Bytes.hexDigit :=
  Bytes.hex_eq_map_digits h.bytes

theorem digits_eq_flatMap_numbers (h : ContentHash) :
    h.digits = h.numbers.flatMap fun n => [n / 16, n % 16] := by
  rw [numbers, List.flatMap_map]
  rfl

/-- Digits are the same where their values are. -/
theorem getElem?_text_eq_iff {g h : ContentHash} {i : Nat} :
    g.text[i]? = h.text[i]? ↔ g.digits[i]? = h.digits[i]? := by
  rw [text_eq_map_digits, text_eq_map_digits, List.getElem?_map, List.getElem?_map]
  constructor
  · intro e
    cases hg : g.digits[i]? with
    | none =>
        rw [hg, Option.map_none] at e
        exact (Option.map_eq_none_iff.mp e.symm).symm
    | some a =>
        rw [hg, Option.map_some] at e
        obtain ⟨b, hb, hdigit⟩ := Option.map_eq_some_iff.mp e.symm
        have ha : a < 16 := Bytes.digits_lt (List.mem_of_getElem? hg)
        have hb' : b < 16 := Bytes.digits_lt (List.mem_of_getElem? hb)
        rw [hb, Bytes.hexDigit_injective hb' ha hdigit]
  · intro e
    rw [e]

/-- Texts that are cut short are the same when the digits that are left are. -/
theorem short_eq_iff_digits {g h : ContentHash} {n : Nat} :
    g.short n = h.short n ↔ ∀ i < min n 32, g.digits[i]? = h.digits[i]? := by
  constructor
  · intro e i hi
    have hn : i < n := by omega
    have hget : (g.short n)[i]? = (h.short n)[i]? := by rw [e]
    rw [short, short, List.getElem?_take_of_lt hn, List.getElem?_take_of_lt hn] at hget
    exact getElem?_text_eq_iff.mp hget
  · intro hsame
    refine List.ext_getElem? fun i => ?_
    rw [short, short, List.getElem?_take, List.getElem?_take]
    by_cases hn : i < n
    · rw [if_pos hn, if_pos hn]
      by_cases hwidth : i < 32
      · exact getElem?_text_eq_iff.mpr (hsame i (by omega))
      · -- beyond the width there is nothing to cut
        have hend : ∀ h : ContentHash, h.text[i]? = none := fun h =>
          List.getElem?_eq_none (by rw [length_text]; omega)
        rw [hend, hend]
    · rw [if_neg hn, if_neg hn]

/-- A text is read just if it writes sixteen numbers below 256. -/
theorem exists_ofJson?_iff {text : List Char} :
    (∃ h, ofJson? text = some h) ↔ ∃ numbers : List Nat, numbers.length = 16 ∧
      (∀ n ∈ numbers, n < 256) ∧ Token.Spell (Token.array numbers) text := by
  constructor
  · intro hread
    obtain ⟨h, e⟩ := hread
    exact ⟨h.numbers, h.length_numbers, fun _ => numbers_lt, ofJson?_eq_some_iff.mp e⟩
  · intro hwritten
    obtain ⟨numbers, hlength, hsmall, hspell⟩ := hwritten
    obtain ⟨h, rfl⟩ := exists_numbers_eq hlength hsmall
    exact ⟨h, ofJson?_eq_some_iff.mpr hspell⟩

/-- The numbers in a text have the digits of its hash, in the same order. -/
theorem digits_of_ofJson? {text : List Char} {h : ContentHash} (e : ofJson? text = some h)
    {numbers : List Nat} (hspell : Token.Spell (Token.array numbers) text) :
    h.digits = numbers.flatMap fun n => [n / 16, n % 16] := by
  have hsame := (ofJson?_eq_some_iff.mp e).tokens?_eq.symm.trans hspell.tokens?_eq
  rw [digits_eq_flatMap_numbers, Token.array_injective (Option.some.inj hsame)]

/-- **No form of a hash loses anything.** Its text is 32 small digits, two for each byte, and
belongs to no other hash. Cut short after any number of digits, be it odd or more than there are,
the text is the same for two hashes just if the digits that are left are. What is written as JSON is
read back. A text is read at all just if it writes an array of sixteen numbers below 256, with any
blanks; then writing the hash takes the blanks away and nothing else, which gives a text that is
read as the same hash; and the numbers have the digits of the hash, in the same order. -/
theorem forms_lose_nothing :
    (∀ h : ContentHash, h.text.length = 32 ∧ (∀ c ∈ h.text, c ∈ Bytes.lowerHexDigits) ∧
      h.text = h.digits.map Bytes.hexDigit) ∧
    (∀ g h : ContentHash, (g.text = h.text ↔ g = h) ∧
      ∀ n, g.short n = h.short n ↔ ∀ i < min n 32, g.digits[i]? = h.digits[i]?) ∧
    (∀ (h : ContentHash) (n : Nat), h.short n <+: h.text ∧ (h.short n).length = min n 32) ∧
    (∀ h : ContentHash, ofJson? h.json = some h) ∧
    ∀ text : List Char,
      ((∃ h, ofJson? text = some h) ↔ ∃ numbers : List Nat, numbers.length = 16 ∧
        (∀ n ∈ numbers, n < 256) ∧ Token.Spell (Token.array numbers) text) ∧
      ∀ h, ofJson? text = some h →
        h.json = text.filter (fun c => !isBlank c) ∧ ofJson? h.json = some h ∧
        ∀ numbers, Token.Spell (Token.array numbers) text →
          h.digits = numbers.flatMap fun n => [n / 16, n % 16] := by
  refine ⟨fun h => ⟨h.length_text, ?_, h.text_eq_map_digits⟩, fun g h => ⟨?_, fun n => ?_⟩,
    fun h n => ⟨List.take_prefix n h.text, ?_⟩, ofJson?_json, fun text => ⟨exists_ofJson?_iff, ?_⟩⟩
  · intro c hc
    rw [text_eq_map_digits] at hc
    obtain ⟨d, hd, rfl⟩ := List.mem_map.mp hc
    exact Bytes.hexDigit_mem_lowerHexDigits (Bytes.digits_lt hd)
  · exact ⟨text_injective, congrArg text⟩
  · exact short_eq_iff_digits
  · rw [short, List.length_take, length_text]
  · intro h e
    exact ⟨json_of_ofJson? e, h.ofJson?_json, fun _ => digits_of_ofJson? e⟩

/-- Blanks may stand around numbers, and a small number has a zero for its first digit. -/
example :
    (ofJson? "[ 1,35,69,103,137,171,205,239 , 254,220,186,152,118,84,50,16]\n".toList).map text =
      some "0123456789abcdeffedcba9876543210".toList := by
  rfl

end ContentHash

end TemplateCache
