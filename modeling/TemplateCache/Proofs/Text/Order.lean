import TemplateCache.Proofs.Text.Utf8

/-!
# Texts in the order of their bytes

Texts are ordered by their characters, byte strings by their bytes, and UTF-8 makes the one order
the other: the first byte of a character is the larger the more bytes there are, and bytes of as many
read from the left like digits. So it does not matter in which of the two orders keys are sorted.
Main statement: `ofString_lt_iff`.
-/

namespace TemplateCache.Utf8

/-- Where the first bytes do not decide, what follows them does. -/
theorem ofNat_cons_lt {m n : Nat} (hn : n < 256) (hle : m ≤ n) {x y : Bytes}
    (hrest : m = n → x < y) : UInt8.ofNat m :: x < UInt8.ofNat n :: y := by
  rw [List.cons_lt_cons_iff]
  rcases Nat.lt_or_eq_of_le hle with hlt | rfl
  · refine .inl (UInt8.lt_iff_toNat_lt.mpr ?_)
    rwa [toNat_ofNat (by omega), toNat_ofNat hn]
  · exact .inr ⟨rfl, hrest rfl⟩

/-- The bytes of a lesser character come first, whatever follows. -/
theorem encodeChar_append_lt {c d : Char} (h : c < d) (x y : Bytes) :
    encodeChar c ++ x < encodeChar d ++ y := by
  have hless : c.toNat < d.toNat := h
  have hvalid := isValidChar_toNat d
  unfold encodeChar
  dsimp only
  split_ifs
  all_goals refine ofNat_cons_lt (by omega) (by omega) fun hfirst => ?_
  -- first bytes are the same only in characters of as many bytes, two, three or four
  any_goals omega
  · exact ofNat_cons_lt (by omega) (by omega) fun hsecond => by omega
  · refine ofNat_cons_lt (by omega) (by omega) fun hsecond => ?_
    exact ofNat_cons_lt (by omega) (by omega) fun hthird => by omega
  · refine ofNat_cons_lt (by omega) (by omega) fun hsecond => ?_
    refine ofNat_cons_lt (by omega) (by omega) fun hthird => ?_
    exact ofNat_cons_lt (by omega) (by omega) fun hfourth => by omega

theorem encode_lt_encode {a b : List Char} (h : a < b) : encode a < encode b := by
  induction a generalizing b with
  | nil =>
      cases b with
      | nil => exact absurd h (List.not_lt_nil _)
      | cons d b =>
          have hpos : 0 < (encode (d :: b)).length :=
            Nat.lt_of_lt_of_le (Nat.succ_pos _) (length_le_encode (d :: b))
          obtain ⟨byte, rest, hbytes⟩ := List.exists_cons_of_length_pos hpos
          rw [hbytes]
          exact List.nil_lt_cons byte rest
  | cons c a ih =>
      cases b with
      | nil => exact absurd h (List.not_lt_nil _)
      | cons d b =>
          rcases List.cons_lt_cons_iff.mp h with hless | ⟨rfl, hrest⟩
          · exact encodeChar_append_lt hless _ _
          · exact List.append_left_lt (ih hrest)

/-- Texts are in the order of their bytes. -/
theorem ofString_lt_iff {a b : String} : ofString a < ofString b ↔ a < b := by
  constructor
  · intro h
    by_contra hnot
    by_cases heq : a = b
    · exact List.lt_irrefl _ (heq ▸ h)
    · have hless := Std.lt_of_le_of_ne (String.not_lt.mp hnot) (Ne.symm heq)
      exact List.lt_irrefl _ (List.lt_trans h (encode_lt_encode (String.lt_iff.mp hless)))
  · intro h
    exact encode_lt_encode (String.lt_iff.mp h)

end TemplateCache.Utf8
