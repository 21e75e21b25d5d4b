import Mathlib.Algebra.Group.Nat.Defs
import TemplateCache.Number.Decimal
import TemplateCache.Proofs.Text.Runs

/-!
# Digits

The decimal digits of a number determine it, also with zeros before them, and so does a signed
number's text. The value that digits write is `Nat.ofDigitChars 10`, and if they do not begin with
a zero they are the digits of this value.
-/

namespace TemplateCache.Decimal

/-- Nothing but digits. -/
def AllDigits (text : List Char) : Prop := ∀ c ∈ text, c.isDigit = true

theorem AllDigits.append {a b : List Char} (ha : AllDigits a) (hb : AllDigits b) :
    AllDigits (a ++ b) := by
  intro c hc
  rcases List.mem_append.mp hc with hc | hc
  · exact ha c hc
  · exact hb c hc

theorem AllDigits.not_mem {text : List Char} (h : AllDigits text) {c : Char}
    (hc : c.isDigit = false) : c ∉ text := by
  intro hmem
  rw [h c hmem] at hc
  cases hc

/-- Where digits end, whatever their number. -/
theorem AllDigits.inj {a b rest rest' : List Char} (ha : AllDigits a) (hb : AllDigits b)
    (hrest : Runs.Ends Char.isDigit rest) (hrest' : Runs.Ends Char.isDigit rest')
    (h : a ++ rest = b ++ rest') : a = b ∧ rest = rest' :=
  Runs.eq_of_append_eq ha hb hrest hrest' h

theorem allDigits_replicate_zero (n : Nat) : AllDigits (List.replicate n '0') := by
  intro c hc
  rw [List.eq_of_mem_replicate hc]
  rfl

theorem allDigits_digits (n : Nat) : AllDigits (digits n) :=
  fun _ hc => Nat.isDigit_of_mem_toDigits (by decide) (by decide) hc

theorem digits_ne_nil (n : Nat) : digits n ≠ [] := Nat.toDigits_ne_nil

theorem ofDigitChars_digits (n : Nat) : Nat.ofDigitChars 10 (digits n) 0 = n :=
  Nat.ofDigitChars_ten_toDigits

theorem digits_injective {m n : Nat} (h : digits m = digits n) : m = n := by
  rw [← ofDigitChars_digits m, h, ofDigitChars_digits]

/-! ## Widths -/

theorem allDigits_padded (width n : Nat) : AllDigits (padded width n) :=
  (allDigits_replicate_zero _).append (allDigits_digits n)

theorem padded_ne_nil (width n : Nat) : padded width n ≠ [] :=
  fun h => digits_ne_nil n (List.append_eq_nil_iff.mp h).2

/-- Zeros in front do not count. -/
theorem ofDigitChars_replicate_append (k : Nat) (text : List Char) :
    Nat.ofDigitChars 10 (List.replicate k '0' ++ text) 0 = Nat.ofDigitChars 10 text 0 := by
  rw [Nat.ofDigitChars_append, Nat.ofDigitChars_replicate_zero, Nat.mul_zero]

/-- Every zero at the end counts ten times. -/
theorem ofDigitChars_append_replicate (text : List Char) (k : Nat) :
    Nat.ofDigitChars 10 (text ++ List.replicate k '0') 0 =
      10 ^ k * Nat.ofDigitChars 10 text 0 := by
  rw [Nat.ofDigitChars_append, Nat.ofDigitChars_replicate_zero]

theorem ofDigitChars_padded (width n : Nat) : Nat.ofDigitChars 10 (padded width n) 0 = n := by
  rw [padded, ofDigitChars_replicate_append, ofDigitChars_digits]

theorem padded_injective {width m n : Nat} (h : padded width m = padded width n) : m = n := by
  rw [← ofDigitChars_padded width m, h, ofDigitChars_padded]

/-- A padded number ends where its digits end. -/
theorem padded_inj {width m n : Nat} {rest rest' : List Char}
    (hrest : Runs.Ends Char.isDigit rest) (hrest' : Runs.Ends Char.isDigit rest')
    (h : padded width m ++ rest = padded width n ++ rest') : m = n ∧ rest = rest' := by
  obtain ⟨htext, htail⟩ :=
    (allDigits_padded width m).inj (allDigits_padded width n) hrest hrest' h
  exact ⟨padded_injective htext, htail⟩

theorem length_digits_le_iff {n k : Nat} (hk : 0 < k) : (digits n).length ≤ k ↔ n < 10 ^ k :=
  Nat.length_toDigits_le_iff (by decide) hk

theorem length_padded {width n : Nat} (hwidth : 0 < width) (h : n < 10 ^ width) :
    (padded width n).length = width := by
  have hlength := (length_digits_le_iff hwidth).mpr h
  simp only [padded, List.length_append, List.length_replicate]
  omega

theorem isDigit_iff {c : Char} : c.isDigit = true ↔ 48 ≤ c.toNat ∧ c.toNat ≤ 57 := by
  simp only [Char.isDigit, Bool.and_eq_true, decide_eq_true_eq, ge_iff_le]
  exact and_congr UInt32.le_iff_toNat_le UInt32.le_iff_toNat_le

theorem digitValue_lt {c : Char} (h : c.isDigit = true) : digitValue c < 10 := by
  rw [digitValue, if_pos h]
  have hle := (isDigit_iff.mp h).2
  omega

/-- Digits write less than a one with as many zeros. -/
theorem ofDigits_lt {digits : List Char} (h : AllDigits digits) :
    ofDigits 10 digits < 10 ^ digits.length := by
  -- after some digits have been read, the rest of them adds less than one to the last of these
  have hfrom : ∀ n, digits.foldl (fun n c => 10 * n + digitValue c) n <
      (n + 1) * 10 ^ digits.length := by
    induction digits with
    | nil => intro n; simp
    | cons c rest ih =>
        intro n
        have hrest := ih (fun d hd => h d (List.mem_cons_of_mem _ hd)) (10 * n + digitValue c)
        have hvalue := digitValue_lt (h c List.mem_cons_self)
        calc (c :: rest).foldl (fun n c => 10 * n + digitValue c) n
            < (10 * n + digitValue c + 1) * 10 ^ rest.length := hrest
          _ ≤ (10 * (n + 1)) * 10 ^ rest.length := Nat.mul_le_mul_right _ (by omega)
          _ = (n + 1) * 10 ^ (c :: rest).length := by
              rw [List.length_cons, Nat.pow_succ', ← Nat.mul_assoc, Nat.mul_comm 10]
  simpa [ofDigits] using hfrom 0

/-! ## Numbers without superfluous zeros -/

/-- A digit is the one that its value is written with. -/
theorem digitChar_of_isDigit {c : Char} (h : c.isDigit = true) :
    c.toNat - '0'.toNat < 10 ∧ (c.toNat - '0'.toNat).digitChar = c := by
  have hall : ∀ n < 10, n.digitChar = Char.ofNat (n + 48) := by decide
  obtain ⟨hlow, hhigh⟩ := isDigit_iff.mp h
  have hzero : '0'.toNat = 48 := rfl
  rw [hzero]
  have hvalue : c.toNat - 48 < 10 := by omega
  refine ⟨hvalue, ?_⟩
  rw [hall _ hvalue, Nat.sub_add_cancel hlow, Char.ofNat_toNat]

/-- Read after a number that is not zero, digits are put behind its own. -/
theorem digits_ofDigitChars_of_pos {text : List Char} (htext : AllDigits text) {n : Nat}
    (hn : 0 < n) : digits (Nat.ofDigitChars 10 text n) = digits n ++ text := by
  induction text generalizing n with
  | nil => rw [Nat.ofDigitChars_nil, List.append_nil]
  | cons c rest ih =>
      obtain ⟨hvalue, hc⟩ := digitChar_of_isDigit (htext c List.mem_cons_self)
      have hrest : AllDigits rest := fun d hd => htext d (List.mem_cons_of_mem _ hd)
      rw [Nat.ofDigitChars_cons, ih hrest (by omega)]
      unfold digits
      rw [← Nat.toDigits_append_toDigits (by decide) hn hvalue, Nat.toDigits_of_lt_base hvalue, hc,
        List.append_assoc, List.singleton_append]

/-- Digits that do not begin with a zero are those of the number they write. -/
theorem digits_ofDigitChars {c : Char} {rest : List Char} (h : AllDigits (c :: rest))
    (hzero : c ≠ '0') : digits (Nat.ofDigitChars 10 (c :: rest) 0) = c :: rest := by
  obtain ⟨hvalue, hc⟩ := digitChar_of_isDigit (h c List.mem_cons_self)
  have hpos : 0 < c.toNat - '0'.toNat := by
    refine Nat.pos_of_ne_zero fun hnone => hzero ?_
    rw [← hc, hnone]
    rfl
  have hrest : AllDigits rest := fun d hd => h d (List.mem_cons_of_mem _ hd)
  rw [Nat.ofDigitChars_cons, Nat.mul_zero, Nat.zero_add, digits_ofDigitChars_of_pos hrest hpos]
  unfold digits
  rw [Nat.toDigits_of_lt_base hvalue, hc, List.singleton_append]

/-- Only the digits of zero begin with a zero. -/
theorem head?_digits_ne_zero {n : Nat} (hn : 0 < n) : (digits n).head? ≠ some '0' := by
  unfold digits
  induction n using Nat.strongRecOn with
  | ind n ih =>
      have hsmall : ∀ n < 10, 0 < n → n.digitChar ≠ '0' := by decide
      by_cases hten : n < 10
      · rw [Nat.toDigits_of_lt_base hten]
        simpa using hsmall n hten hn
      · rw [Nat.toDigits_of_base_le (by decide) (Nat.le_of_not_lt hten), List.head?_append,
          Option.or_of_isSome (List.isSome_head?.mpr Nat.toDigits_ne_nil)]
        exact ih (n / 10) (by omega) (by omega)

/-! ## Signs -/

/-- An optional minus does not hide what follows it. -/
theorem signed_injective {m n : Int} (h : signed m = signed n) : m = n := by
  have hminus : ∀ k l : Nat, '-' :: digits k ≠ digits l := by
    intro k l e
    exact (allDigits_digits l).not_mem (c := '-') rfl (e ▸ List.mem_cons_self)
  unfold signed at h
  split at h <;> split at h
  · have habs := digits_injective (List.cons.inj h).2
    omega
  · exact absurd h (hminus _ _)
  · exact absurd h.symm (hminus _ _)
  · have habs := digits_injective h
    omega

/-- After its first character, an integer is all digits. -/
theorem allDigits_tail_signed (n : Int) : AllDigits (signed n).tail := by
  unfold signed
  split
  · exact allDigits_digits _
  · exact fun c hc => allDigits_digits _ c (List.mem_of_mem_tail hc)

end TemplateCache.Decimal
