import TemplateCache.Text.Utf8
import Mathlib.Data.List.Basic

/-!
# Text and its bytes determine each other

`encode` writes text as bytes and `decode?` reads it back. Main statements: what was written is
read back (`decode?_encode`), and only the bytes that were written are read as a text
(`encode_of_decode?`). So a file name that is text has exactly one text.

The second direction follows a character through its bytes. An unfinished character *promises*
that whatever bytes complete it are those of the character it becomes; the first byte makes the
promise and every byte after it keeps it.
-/

namespace TemplateCache.Utf8

theorem ofNat_eq {n : Nat} {b : UInt8} (h : n = b.toNat) : UInt8.ofNat n = b := by
  subst h
  exact UInt8.ofNat_toNat

theorem toNat_ofNat {n : Nat} (h : n < 256) : (UInt8.ofNat n).toNat = n :=
  UInt8.toNat_ofNat_of_lt' h

theorem isValidChar_toNat (c : Char) :
    c.toNat < 0xD800 ∨ (0xDFFF < c.toNat ∧ c.toNat < 0x110000) := c.valid

/-! ## First bytes -/

theorem lead_one {b : UInt8} (h : b.toNat < 0x80) : lead b = .whole (Char.ofNat b.toNat) := by
  simp [lead, UInt8.lt_iff_toNat_lt, h]

theorem lead_two {b : UInt8} (h : 0xC2 ≤ b.toNat) (h' : b.toNat < 0xE0) :
    lead b = .part ⟨[b], b.toNat - 0xC0, 1, 0x80, 0xBF⟩ := by
  have h1 : ¬b.toNat < 0x80 := by omega
  have h2 : ¬b.toNat < 0xC2 := by omega
  simp [lead, UInt8.lt_iff_toNat_lt, h1, h2, h']

/-- Of three bytes the second is kept from writing an overlong form or a surrogate. -/
theorem lead_three {b : UInt8} (h : 0xE0 ≤ b.toNat) (h' : b.toNat < 0xF0) :
    lead b = .part ⟨[b], b.toNat - 0xE0, 2, if b.toNat = 0xE0 then 0xA0 else 0x80,
      if b.toNat = 0xED then 0x9F else 0xBF⟩ := by
  have h1 : ¬b.toNat < 0x80 := by omega
  have h2 : ¬b.toNat < 0xC2 := by omega
  have h3 : ¬b.toNat < 0xE0 := by omega
  by_cases he : b.toNat = 0xE0
  · simp [lead, UInt8.lt_iff_toNat_lt, ← UInt8.toNat_inj, he]
  · by_cases hd : b.toNat = 0xED
    · simp [lead, UInt8.lt_iff_toNat_lt, ← UInt8.toNat_inj, hd]
    · simp [lead, UInt8.lt_iff_toNat_lt, ← UInt8.toNat_inj, h1, h2, h3, h', he, hd]

/-- Of four bytes the second is kept from writing an overlong form or too large a value. -/
theorem lead_four {b : UInt8} (h : 0xF0 ≤ b.toNat) (h' : b.toNat < 0xF5) :
    lead b = .part ⟨[b], b.toNat - 0xF0, 3, if b.toNat = 0xF0 then 0x90 else 0x80,
      if b.toNat = 0xF4 then 0x8F else 0xBF⟩ := by
  have h1 : ¬b.toNat < 0x80 := by omega
  have h2 : ¬b.toNat < 0xC2 := by omega
  have h3 : ¬b.toNat < 0xE0 := by omega
  have h4 : ¬b.toNat = 0xE0 := by omega
  have h5 : ¬b.toNat = 0xED := by omega
  have h6 : ¬b.toNat < 0xF0 := by omega
  by_cases he : b.toNat = 0xF0
  · simp [lead, UInt8.lt_iff_toNat_lt, ← UInt8.toNat_inj, he]
  · by_cases hd : b.toNat = 0xF4
    · simp [lead, UInt8.lt_iff_toNat_lt, ← UInt8.toNat_inj, hd]
    · have h7 : b.toNat < 0xF4 := by omega
      simp [lead, UInt8.lt_iff_toNat_lt, ← UInt8.toNat_inj, h1, h2, h3, h4, h5, h6, h7, he, hd]

theorem lead_none {b : UInt8} (h : 0x80 ≤ b.toNat) (h' : b.toNat < 0xC2 ∨ 0xF5 ≤ b.toNat) :
    lead b = .none := by
  have h1 : ¬b.toNat < 0x80 := by omega
  rcases h' with h' | h'
  · simp [lead, UInt8.lt_iff_toNat_lt, h1, h']
  · have h2 : ¬b.toNat < 0xC2 := by omega
    have h3 : ¬b.toNat < 0xE0 := by omega
    have h4 : ¬b.toNat = 0xE0 := by omega
    have h5 : ¬b.toNat = 0xED := by omega
    have h6 : ¬b.toNat < 0xF0 := by omega
    have h7 : ¬b.toNat = 0xF0 := by omega
    have h8 : ¬b.toNat < 0xF4 := by omega
    have h9 : ¬b.toNat = 0xF4 := by omega
    simp [lead, UInt8.lt_iff_toNat_lt, ← UInt8.toNat_inj, h1, h2, h3, h4, h5, h6, h7, h8, h9]

/-! ## Writing, then reading -/

section

-- the equations of `piecesFrom` take long to make, and every proof below waits for them; so they
-- are made here, before the first of the proofs
attribute [local simp] piecesFrom

/-- The last byte of a character completes it. -/
theorem piecesFrom_last {u : Unfinished} {b : UInt8} {rest : Bytes} (howed : u.owed = 1)
    (hlow : u.low.toNat ≤ b.toNat) (hhigh : b.toNat ≤ u.high.toNat) :
    piecesFrom (some u) (b :: rest) =
      .char (Char.ofNat (64 * u.value + (b.toNat - 0x80))) :: piecesFrom none rest := by
  have hin : u.low ≤ b ∧ b ≤ u.high :=
    ⟨UInt8.le_iff_toNat_le.mpr hlow, UInt8.le_iff_toNat_le.mpr hhigh⟩
  rw [piecesFrom, if_pos hin]
  simp [howed]

/-- A byte before the last one adds six bits to the value. -/
theorem piecesFrom_next {u : Unfinished} {b : UInt8} {rest : Bytes} (howed : u.owed ≠ 1)
    (hlow : u.low.toNat ≤ b.toNat) (hhigh : b.toNat ≤ u.high.toNat) :
    piecesFrom (some u) (b :: rest) =
      piecesFrom (some ⟨u.seen ++ [b], 64 * u.value + (b.toNat - 0x80), u.owed - 1, 0x80, 0xBF⟩)
        rest := by
  have hin : u.low ≤ b ∧ b ≤ u.high :=
    ⟨UInt8.le_iff_toNat_le.mpr hlow, UInt8.le_iff_toNat_le.mpr hhigh⟩
  rw [piecesFrom, if_pos hin]
  simp [howed]

theorem piecesFrom_one {b : UInt8} (rest : Bytes) (h : b.toNat < 0x80) :
    piecesFrom none (b :: rest) = .char (Char.ofNat b.toNat) :: piecesFrom none rest := by
  simp [lead_one h]

end

theorem piecesFrom_two {b c : UInt8} (rest : Bytes) (hb : 0xC2 ≤ b.toNat) (hb' : b.toNat < 0xE0)
    (hc : 0x80 ≤ c.toNat) (hc' : c.toNat ≤ 0xBF) :
    piecesFrom none (b :: c :: rest) =
      .char (Char.ofNat (64 * (b.toNat - 0xC0) + (c.toNat - 0x80))) :: piecesFrom none rest := by
  rw [piecesFrom, lead_two hb hb']
  exact piecesFrom_last rfl hc hc'

theorem piecesFrom_three {b c d : UInt8} (rest : Bytes) (hb : 0xE0 ≤ b.toNat)
    (hb' : b.toNat < 0xF0) (hc : (if b.toNat = 0xE0 then 0xA0 else 0x80) ≤ c.toNat)
    (hc' : c.toNat ≤ if b.toNat = 0xED then 0x9F else 0xBF) (hd : 0x80 ≤ d.toNat)
    (hd' : d.toNat ≤ 0xBF) :
    piecesFrom none (b :: c :: d :: rest) =
      .char (Char.ofNat (64 * (64 * (b.toNat - 0xE0) + (c.toNat - 0x80)) + (d.toNat - 0x80)))
        :: piecesFrom none rest := by
  rw [piecesFrom, lead_three hb hb']
  dsimp only
  rw [piecesFrom_next (by simp) (by split at hc <;> simp_all) (by split at hc' <;> simp_all)]
  exact piecesFrom_last rfl hd hd'

theorem piecesFrom_four {b c d e : UInt8} (rest : Bytes) (hb : 0xF0 ≤ b.toNat)
    (hb' : b.toNat < 0xF5) (hc : (if b.toNat = 0xF0 then 0x90 else 0x80) ≤ c.toNat)
    (hc' : c.toNat ≤ if b.toNat = 0xF4 then 0x8F else 0xBF) (hd : 0x80 ≤ d.toNat)
    (hd' : d.toNat ≤ 0xBF) (he : 0x80 ≤ e.toNat) (he' : e.toNat ≤ 0xBF) :
    piecesFrom none (b :: c :: d :: e :: rest) =
      .char (Char.ofNat (64 * (64 * (64 * (b.toNat - 0xF0) + (c.toNat - 0x80))
        + (d.toNat - 0x80)) + (e.toNat - 0x80))) :: piecesFrom none rest := by
  rw [piecesFrom, lead_four hb hb']
  dsimp only
  rw [piecesFrom_next (by simp) (by split at hc <;> simp_all) (by split at hc' <;> simp_all)]
  refine (piecesFrom_next (u := ⟨_, _, _, 0x80, 0xBF⟩) (by simp) hd hd').trans ?_
  exact piecesFrom_last rfl he he'

/-- The bytes of a character are read as that character, whatever follows. -/
theorem piecesFrom_encodeChar (c : Char) (rest : Bytes) :
    piecesFrom none (encodeChar c ++ rest) = .char c :: piecesFrom none rest := by
  have hc := isValidChar_toNat c
  have hback : Char.ofNat c.toNat = c := Char.ofNat_toNat c
  unfold encodeChar
  generalize c.toNat = n at hc hback ⊢
  dsimp only
  split
  · have hb : (UInt8.ofNat n).toNat = n := toNat_ofNat (by omega)
    rw [List.singleton_append, piecesFrom_one rest (by omega), hb, hback]
  -- the bytes after the first hold six bits each
  · have hlast : (UInt8.ofNat (0x80 + n % 64)).toNat = 0x80 + n % 64 := toNat_ofNat (by omega)
    have hmid : (UInt8.ofNat (0x80 + n / 64 % 64)).toNat = 0x80 + n / 64 % 64 :=
      toNat_ofNat (by omega)
    have hmid' : (UInt8.ofNat (0x80 + n / 4096 % 64)).toNat = 0x80 + n / 4096 % 64 :=
      toNat_ofNat (by omega)
    split
    · have hb : (UInt8.ofNat (0xC0 + n / 64)).toNat = 0xC0 + n / 64 := toNat_ofNat (by omega)
      have hn : 64 * (0xC0 + n / 64 - 0xC0) + (0x80 + n % 64 - 0x80) = n := by omega
      simp only [List.cons_append, List.nil_append]
      rw [piecesFrom_two rest (by omega) (by omega) (by omega) (by omega), hb, hlast, hn, hback]
    · split
      · have hb : (UInt8.ofNat (0xE0 + n / 4096)).toNat = 0xE0 + n / 4096 :=
          toNat_ofNat (by omega)
        have hn : 64 * (64 * (0xE0 + n / 4096 - 0xE0) + (0x80 + n / 64 % 64 - 0x80))
            + (0x80 + n % 64 - 0x80) = n := by omega
        simp only [List.cons_append, List.nil_append]
        rw [piecesFrom_three rest (by omega) (by omega) (by split <;> omega)
          (by split <;> omega) (by omega) (by omega), hb, hmid, hlast, hn, hback]
      · have hb : (UInt8.ofNat (0xF0 + n / 262144)).toNat = 0xF0 + n / 262144 :=
          toNat_ofNat (by omega)
        have hn : 64 * (64 * (64 * (0xF0 + n / 262144 - 0xF0) + (0x80 + n / 4096 % 64 - 0x80))
            + (0x80 + n / 64 % 64 - 0x80)) + (0x80 + n % 64 - 0x80) = n := by omega
        simp only [List.cons_append, List.nil_append]
        rw [piecesFrom_four rest (by omega) (by omega) (by split <;> omega)
          (by split <;> omega) (by omega) (by omega) (by omega) (by omega), hb, hmid', hmid, hlast,
          hn, hback]

theorem pieces_encode (text : List Char) : pieces (encode text) = text.map .char := by
  induction text with
  | nil => rfl
  | cons c rest ih =>
      have hcons : encode (c :: rest) = encodeChar c ++ encode rest := by simp [encode]
      rw [hcons, pieces, piecesFrom_encodeChar, ← pieces, ih]
      rfl

theorem chars?_map_char (text : List Char) : chars? (text.map .char) = some text := by
  induction text with
  | nil => rfl
  | cons c rest ih => simp [chars?, ih]

/-- What was written is read back. -/
theorem decode?_encode (text : List Char) : decode? (encode text) = some text := by
  rw [decode?, pieces_encode, chars?_map_char]

theorem encode_injective {a b : List Char} (h : encode a = encode b) : a = b := by
  have hdecode := congrArg decode? h
  simpa [decode?_encode] using hdecode

theorem ofString_injective {a b : String} (h : ofString a = ofString b) : a = b :=
  String.toList_inj.mp (encode_injective h)

/-! ## Reading, then writing -/

/-- The value of a character after some more of its bytes. -/
def valueAfter (value : Nat) (bytes : Bytes) : Nat :=
  bytes.foldl (fun v b => 64 * v + (b.toNat - 0x80)) value

/-- Bytes that are taken after an unfinished character: the first lies in its range, all others
in the common one. -/
def Unfinished.Takes (u : Unfinished) : Bytes → Prop
  | [] => True
  | b :: rest => u.low.toNat ≤ b.toNat ∧ b.toNat ≤ u.high.toNat ∧
      ∀ c ∈ rest, 0x80 ≤ c.toNat ∧ c.toNat ≤ 0xBF

/-- Whatever bytes complete the character, they and those seen are the bytes of what it becomes. -/
def Unfinished.Promises (u : Unfinished) : Prop :=
  ∀ tail : Bytes, tail.length = u.owed → u.Takes tail →
    encodeChar (Char.ofNat (valueAfter u.value tail)) = u.seen ++ tail

theorem toNat_ofNat_of_valid {n : Nat} (h : n < 0xD800 ∨ (0xDFFF < n ∧ n < 0x110000)) :
    (Char.ofNat n).toNat = n := by
  have hvalid : n.isValidChar := h
  unfold Char.ofNat
  rw [dif_pos hvalid]
  rfl

theorem encodeChar_whole {b : UInt8} (h : b.toNat < 0x80) :
    encodeChar (Char.ofNat b.toNat) = [b] := by
  unfold encodeChar
  rw [toNat_ofNat_of_valid (by omega)]
  simp [h]

theorem promises_two {b : UInt8} (h : 0xC2 ≤ b.toNat) (h' : b.toNat < 0xE0) :
    Unfinished.Promises ⟨[b], b.toNat - 0xC0, 1, 0x80, 0xBF⟩ := by
  intro tail hlen htakes
  obtain ⟨c, rfl⟩ := List.length_eq_one_iff.mp hlen
  obtain ⟨hlow, hhigh, -⟩ := htakes
  have hlow : 0x80 ≤ c.toNat := hlow
  have hhigh : c.toNat ≤ 0xBF := hhigh
  change encodeChar (Char.ofNat (64 * (b.toNat - 0xC0) + (c.toNat - 0x80))) = [b, c]
  unfold encodeChar
  rw [toNat_ofNat_of_valid (by omega)]
  dsimp only
  rw [if_neg (by omega), if_pos (by omega), ofNat_eq (b := b) (by omega),
    ofNat_eq (b := c) (by omega)]

theorem promises_three {b : UInt8} (h : 0xE0 ≤ b.toNat) (h' : b.toNat < 0xF0) :
    Unfinished.Promises ⟨[b], b.toNat - 0xE0, 2, if b.toNat = 0xE0 then 0xA0 else 0x80,
      if b.toNat = 0xED then 0x9F else 0xBF⟩ := by
  intro tail hlen htakes
  obtain ⟨c, d, rfl⟩ := List.length_eq_two.mp hlen
  obtain ⟨hlow, hhigh, hrest⟩ := htakes
  have hd := hrest d (by simp)
  have hlow : (if b.toNat = 0xE0 then 0xA0 else 0x80) ≤ c.toNat := by
    split <;> simp_all
  have hhigh : c.toNat ≤ if b.toNat = 0xED then 0x9F else 0xBF := by
    split <;> simp_all
  change encodeChar (Char.ofNat (64 * (64 * (b.toNat - 0xE0) + (c.toNat - 0x80))
    + (d.toNat - 0x80))) = [b, c, d]
  unfold encodeChar
  rw [toNat_ofNat_of_valid (by split at hlow <;> split at hhigh <;> omega)]
  dsimp only
  have hfirst : 0x80 ≤ c.toNat ∧ c.toNat ≤ 0xBF := by
    split at hlow <;> split at hhigh <;> omega
  have hlong : 0x800 ≤ 64 * (64 * (b.toNat - 0xE0) + (c.toNat - 0x80)) + (d.toNat - 0x80) := by
    split at hlow <;> omega
  rw [if_neg (by omega), if_neg (by omega), if_pos (by omega), ofNat_eq (b := b) (by omega),
    ofNat_eq (b := c) (by omega), ofNat_eq (b := d) (by omega)]

theorem promises_four {b : UInt8} (h : 0xF0 ≤ b.toNat) (h' : b.toNat < 0xF5) :
    Unfinished.Promises ⟨[b], b.toNat - 0xF0, 3, if b.toNat = 0xF0 then 0x90 else 0x80,
      if b.toNat = 0xF4 then 0x8F else 0xBF⟩ := by
  intro tail hlen htakes
  obtain ⟨c, d, e, rfl⟩ := List.length_eq_three.mp hlen
  obtain ⟨hlow, hhigh, hrest⟩ := htakes
  have hd := hrest d (by simp)
  have he := hrest e (by simp)
  have hlow : (if b.toNat = 0xF0 then 0x90 else 0x80) ≤ c.toNat := by
    split <;> simp_all
  have hhigh : c.toNat ≤ if b.toNat = 0xF4 then 0x8F else 0xBF := by
    split <;> simp_all
  change encodeChar (Char.ofNat (64 * (64 * (64 * (b.toNat - 0xF0) + (c.toNat - 0x80))
    + (d.toNat - 0x80)) + (e.toNat - 0x80))) = [b, c, d, e]
  unfold encodeChar
  have hlong : 0x10000 ≤ 64 * (64 * (64 * (b.toNat - 0xF0) + (c.toNat - 0x80))
      + (d.toNat - 0x80)) + (e.toNat - 0x80) := by
    split at hlow <;> omega
  have hfirst : 0x80 ≤ c.toNat ∧ c.toNat ≤ 0xBF := by
    split at hlow <;> split at hhigh <;> omega
  rw [toNat_ofNat_of_valid (by split at hhigh <;> omega)]
  dsimp only
  rw [if_neg (by omega), if_neg (by omega), if_neg (by omega), ofNat_eq (b := b) (by omega),
    ofNat_eq (b := c) (by omega), ofNat_eq (b := d) (by omega), ofNat_eq (b := e) (by omega)]

/-- A first byte is a character, or makes a promise, or begins nothing. -/
theorem lead_cases (b : UInt8) :
    (b.toNat < 0x80 ∧ lead b = .whole (Char.ofNat b.toNat)) ∨
    (∃ u, lead b = .part u ∧ u.seen = [b] ∧ 1 ≤ u.owed ∧ u.Promises) ∨
    lead b = .none := by
  by_cases h1 : b.toNat < 0x80
  · exact .inl ⟨h1, lead_one h1⟩
  · by_cases h2 : b.toNat < 0xC2
    · exact .inr (.inr (lead_none (by omega) (.inl h2)))
    · by_cases h3 : b.toNat < 0xE0
      · exact .inr (.inl ⟨_, lead_two (by omega) h3, rfl, by simp, promises_two (by omega) h3⟩)
      · by_cases h4 : b.toNat < 0xF0
        · exact .inr (.inl ⟨_, lead_three (by omega) h4, rfl, by simp,
            promises_three (by omega) h4⟩)
        · by_cases h5 : b.toNat < 0xF5
          · exact .inr (.inl ⟨_, lead_four (by omega) h5, rfl, by simp,
              promises_four (by omega) h5⟩)
          · exact .inr (.inr (lead_none (by omega) (.inr (by omega))))

/-- A byte in range keeps the promise. -/
theorem Unfinished.Promises.next {u : Unfinished} (h : u.Promises) {b : UInt8}
    (hpos : 1 ≤ u.owed) (hlow : u.low.toNat ≤ b.toNat)
    (hhigh : b.toNat ≤ u.high.toNat) :
    Unfinished.Promises
      ⟨u.seen ++ [b], 64 * u.value + (b.toNat - 0x80), u.owed - 1, 0x80, 0xBF⟩ := by
  intro tail hlen htakes
  have hlen : tail.length = u.owed - 1 := hlen
  -- after the first byte the range is the common one, which is all that the old promise asks
  have hall : ∀ c ∈ tail, 0x80 ≤ c.toNat ∧ c.toNat ≤ 0xBF := by
    cases tail with
    | nil => simp
    | cons c rest =>
        obtain ⟨hc, hc', hrest⟩ := htakes
        intro d hd
        rcases List.mem_cons.mp hd with rfl | hd
        · exact ⟨hc, hc'⟩
        · exact hrest d hd
  have hkept := h (b :: tail) (by simp only [List.length_cons]; omega) ⟨hlow, hhigh, hall⟩
  rw [valueAfter, List.foldl_cons] at hkept
  rw [valueAfter, hkept, List.append_assoc]
  rfl

/-- Bytes that are text are those of the text, after the bytes of an unfinished character. -/
theorem encode_of_chars? (bytes : Bytes) :
    (∀ text, chars? (piecesFrom none bytes) = some text → encode text = bytes) ∧
    (∀ (u : Unfinished) text, u.Promises → 1 ≤ u.owed →
      chars? (piecesFrom (some u) bytes) = some text → encode text = u.seen ++ bytes) := by
  induction bytes with
  | nil =>
      refine ⟨fun text h => ?_, fun u text _ _ h => ?_⟩
      · simp only [piecesFrom, chars?, Option.some.injEq] at h
        simp [← h, encode]
      · simp [piecesFrom, chars?] at h
  | cons b rest ih =>
      obtain ⟨ihnone, ihsome⟩ := ih
      refine ⟨fun text h => ?_, fun u text hu hpos h => ?_⟩
      · rw [piecesFrom] at h
        rcases lead_cases b with ⟨hone, hlead⟩ | ⟨u, hlead, hseen, hpos, hu⟩ | hlead
        · rw [hlead] at h
          simp only [chars?, Option.map_eq_some_iff] at h
          obtain ⟨more, hmore, rfl⟩ := h
          rw [encode, List.flatMap_cons, encodeChar_whole hone, ← encode, ihnone more hmore]
          rfl
        · rw [hlead] at h
          rw [ihsome u text hu hpos h, hseen]
          rfl
        · rw [hlead] at h
          simp [chars?] at h
      · rw [piecesFrom] at h
        split at h
        · rename_i hin
          have hlow := UInt8.le_iff_toNat_le.mp hin.1
          have hhigh := UInt8.le_iff_toNat_le.mp hin.2
          dsimp only at h
          split at h
          · rename_i howed
            simp only [chars?, Option.map_eq_some_iff] at h
            obtain ⟨more, hmore, rfl⟩ := h
            -- this byte completes the character, so the promise is due
            have hchar := hu [b] (by simp [howed]) ⟨hlow, hhigh, by simp⟩
            rw [encode, List.flatMap_cons, ← encode, ihnone more hmore]
            rw [valueAfter, List.foldl_cons, List.foldl_nil] at hchar
            rw [hchar, List.append_assoc]
            rfl
          · rename_i howed
            have htext := ihsome _ text (hu.next hpos hlow hhigh) (by dsimp only; omega) h
            simpa using htext
        · simp [chars?] at h

/-- Only the bytes of a text are read as that text. -/
theorem encode_of_decode? {bytes : Bytes} {text : List Char} (h : decode? bytes = some text) :
    encode text = bytes := (encode_of_chars? bytes).1 text h

theorem decode?_eq_some_iff {bytes : Bytes} {text : List Char} :
    decode? bytes = some text ↔ bytes = encode text :=
  ⟨fun h => (encode_of_decode? h).symm, fun h => h ▸ decode?_encode text⟩

theorem encode_append (a b : List Char) : encode (a ++ b) = encode a ++ encode b := by
  simp [encode]

/-- Every character takes a byte at least. -/
theorem length_le_encode (text : List Char) : text.length ≤ (encode text).length := by
  induction text with
  | nil => simp
  | cons c rest ih =>
      have hone : 1 ≤ (encodeChar c).length := by
        unfold encodeChar
        dsimp only
        repeat' split
        all_goals simp
      have hcons : encode (c :: rest) = encodeChar c ++ encode rest := by simp [encode]
      rw [hcons, List.length_append, List.length_cons]
      omega

/-- There is a byte at least in every piece. -/
theorem length_piecesFrom_le (bytes : Bytes) :
    (piecesFrom none bytes).length ≤ bytes.length ∧
      ∀ u, (piecesFrom (some u) bytes).length ≤ bytes.length + 1 := by
  induction bytes with
  | nil => exact ⟨Nat.le_refl 0, fun _ => Nat.le_refl 1⟩
  | cons b rest ih =>
      obtain ⟨hwhole, hpart⟩ := ih
      have hfresh : (piecesFrom none (b :: rest)).length ≤ rest.length + 1 := by
        unfold piecesFrom
        split
        · exact Nat.succ_le_succ hwhole
        · exact hpart _
        · exact Nat.succ_le_succ hwhole
      refine ⟨hfresh, fun u => ?_⟩
      unfold piecesFrom
      split
      · dsimp only
        split
        · exact Nat.succ_le_succ (Nat.le_succ_of_le hwhole)
        · exact Nat.le_succ_of_le (hpart _)
      -- the bytes seen so far are a piece of their own, and the next one is read afresh
      · exact Nat.succ_le_succ hfresh

theorem length_decodeLenient_le (bytes : Bytes) : (decodeLenient bytes).length ≤ bytes.length := by
  unfold decodeLenient pieces
  rw [List.length_map]
  exact (length_piecesFrom_le bytes).1

/-! ## ASCII bytes -/

theorem encodeChar_ascii {c : Char} (h : c.toNat < 0x80) :
    encodeChar c = [UInt8.ofNat c.toNat] := by
  unfold encodeChar
  simp [h]

/-- A byte below 128 stands for its character and occurs in no other. -/
theorem ofNat_mem_encode_iff {a : Char} (ha : a.toNat < 0x80) {text : List Char} :
    UInt8.ofNat a.toNat ∈ encode text ↔ a ∈ text := by
  have hchar : ∀ c : Char, UInt8.ofNat a.toNat ∈ encodeChar c ↔ a = c := by
    intro c
    by_cases hc : c.toNat < 0x80
    · rw [encodeChar_ascii hc, List.mem_singleton, ← UInt8.toNat_inj,
        toNat_ofNat (by omega), toNat_ofNat (by omega), Char.toNat_inj]
    -- the bytes of all other characters are too large
    · have hne : a ≠ c := fun e => hc (e ▸ ha)
      have hvalid := isValidChar_toNat c
      have hbyte : ∀ k : Nat, k < 256 → 0x80 ≤ k → ¬UInt8.ofNat a.toNat = UInt8.ofNat k := by
        intro k hk hk' e
        have := congrArg UInt8.toNat e
        rw [toNat_ofNat (by omega), toNat_ofNat hk] at this
        omega
      unfold encodeChar
      dsimp only
      rw [if_neg hc]
      repeat' split
      all_goals
        simp only [List.mem_cons, List.not_mem_nil, or_false, hne, iff_false, not_or]
      · exact ⟨hbyte _ (by omega) (by omega), hbyte _ (by omega) (by omega)⟩
      · exact ⟨hbyte _ (by omega) (by omega), hbyte _ (by omega) (by omega),
          hbyte _ (by omega) (by omega)⟩
      · exact ⟨hbyte _ (by omega) (by omega), hbyte _ (by omega) (by omega),
          hbyte _ (by omega) (by omega), hbyte _ (by omega) (by omega)⟩
  unfold encode
  simp only [List.mem_flatMap, hchar]
  constructor
  · rintro ⟨c, hc, rfl⟩
    exact hc
  · intro h
    exact ⟨a, h, rfl⟩

theorem zero_not_mem_encode {text : List Char} (h : ∀ c ∈ text, c.toNat ≠ 0) : 0 ∉ encode text := by
  intro hmem
  have hzero : UInt8.ofNat (Char.ofNat 0).toNat ∈ encode text := hmem
  have hnul := (ofNat_mem_encode_iff (a := Char.ofNat 0) (by decide)).mp hzero
  exact h _ hnul rfl

theorem length_encode_of_ascii {text : List Char} (h : ∀ c ∈ text, c.toNat < 0x80) :
    (encode text).length = text.length := by
  induction text with
  | nil => rfl
  | cons c rest ih =>
      have hc : (encodeChar c).length = 1 := by
        rw [encodeChar_ascii (h c List.mem_cons_self)]
        rfl
      have hrest := ih fun c hc => h c (List.mem_cons_of_mem _ hc)
      rw [encode, List.flatMap_cons, List.length_append, hc, List.length_cons]
      rw [encode] at hrest
      omega

end TemplateCache.Utf8
