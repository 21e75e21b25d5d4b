import TemplateCache.Proofs.Number.Interval

/-!
# The text of a float

A finite float is written as digits around a point, with a minus for a negative one. The digits
are those of a number in the float's interval, so no two finite floats have the same text. The
zeros are no exception: nothing but zero reads as zero, and their signs are written.
-/

namespace TemplateCache.Decimal

open Binary64

/-- The number that digits around a point write. -/
def reading (whole fraction : List Char) : ℚ :=
  (Nat.ofDigitChars 10 (whole ++ fraction) 0 : ℕ) / (10 : ℚ) ^ fraction.length

/-- A text is digits around a point that write a number. -/
structure Writes (text : List Char) (x : ℚ) : Prop where
  digits : ∃ whole fraction, text = whole ++ '.' :: fraction ∧ AllDigits whole ∧
    AllDigits fraction ∧ whole ≠ [] ∧ reading whole fraction = x

/-- A text writes one number. -/
theorem Writes.unique {text : List Char} {x y : ℚ} (hx : Writes text x) (hy : Writes text y) :
    x = y := by
  obtain ⟨whole, fraction, rfl, hwhole, -, -, rfl⟩ := hx
  obtain ⟨whole', fraction', heq, hwhole', -, -, rfl⟩ := hy
  obtain ⟨rfl, rfl⟩ := Runs.eq_of_append_cons_eq (hwhole.not_mem rfl) (hwhole'.not_mem rfl) heq
  rfl

theorem Writes.head {text : List Char} {x : ℚ} (h : Writes text x) :
    ∃ c rest, text = c :: rest ∧ c.isDigit = true := by
  obtain ⟨whole, fraction, rfl, hwhole, -, hne, -⟩ := h
  obtain ⟨c, rest, rfl⟩ := List.exists_cons_of_ne_nil hne
  exact ⟨c, rest ++ '.' :: fraction, rfl, hwhole c List.mem_cons_self⟩

theorem Writes.isDigit_or_point {text : List Char} {x : ℚ} (h : Writes text x) :
    ∀ c ∈ text, c.isDigit = true ∨ c = '.' := by
  obtain ⟨whole, fraction, rfl, hwhole, hfraction, -, -⟩ := h
  intro c hc
  rcases List.mem_append.mp hc with hc | hc
  · exact .inl (hwhole c hc)
  rcases List.mem_cons.mp hc with hc | hc
  · exact .inr hc
  · exact .inl (hfraction c hc)

/-- The point is not the first character. -/
theorem Writes.point_mem_tail {text : List Char} {x : ℚ} (h : Writes text x) :
    '.' ∈ text.tail := by
  obtain ⟨whole, fraction, rfl, hwhole, -, hne, -⟩ := h
  obtain ⟨c, rest, rfl⟩ := List.exists_cons_of_ne_nil hne
  simp

/-! ## Decimals -/

/-- A scaled decimal is written as the number that it is. -/
theorem writes_positional (s : Scaled) : Writes (positional s) s.value := by
  unfold positional
  dsimp only
  split
  · next hexponent =>
      refine ⟨digits s.mantissa ++ List.replicate s.exponent.toNat '0', ['0'], ?_,
        (allDigits_digits _).append (allDigits_replicate_zero _), allDigits_replicate_zero 1,
        ?_, ?_⟩
      · simp
      · simp [digits_ne_nil]
      · have htail : digits s.mantissa ++ List.replicate s.exponent.toNat '0' ++ ['0'] =
            digits s.mantissa ++ List.replicate (s.exponent.toNat + 1) '0' := by
          rw [List.replicate_succ', List.append_assoc]
        have hpower : (10 : ℚ) ^ s.exponent = (10 : ℚ) ^ s.exponent.toNat := by
          rw [← zpow_natCast, Int.toNat_of_nonneg hexponent]
        rw [reading, htail, ofDigitChars_append_replicate, ofDigitChars_digits, Scaled.value,
          hpower]
        push_cast
        simp only [List.length_singleton, pow_succ, pow_zero, one_mul]
        ring
  -- so many zeros stand in front that there is a digit before the point
  · next hexponent =>
      generalize hplaces : (-s.exponent).toNat = places
      generalize hwide : List.replicate (places + 1 - (digits s.mantissa).length) '0' ++
        digits s.mantissa = wide
      have hall : AllDigits wide :=
        hwide ▸ (allDigits_replicate_zero _).append (allDigits_digits _)
      have hlength : places < wide.length := by
        rw [← hwide, List.length_append, List.length_replicate]
        omega
      refine ⟨wide.take (wide.length - places), wide.drop (wide.length - places), rfl,
        fun c hc => hall c (List.mem_of_mem_take hc), fun c hc => hall c (List.mem_of_mem_drop hc),
        ?_, ?_⟩
      · exact List.ne_nil_of_length_pos (by rw [List.length_take]; omega)
      · have hdrop : (wide.drop (wide.length - places)).length = places := by
          rw [List.length_drop]
          omega
        have hpower : (10 : ℚ) ^ s.exponent = ((10 : ℚ) ^ places)⁻¹ := by
          rw [← zpow_natCast, ← zpow_neg, ← hplaces, Int.toNat_of_nonneg (by omega), neg_neg]
        rw [reading, List.take_append_drop, hdrop, ← hwide, ofDigitChars_replicate_append,
          ofDigitChars_digits, Scaled.value, hpower, div_eq_mul_inv]

/-! ## Floats -/

/-- After its sign, the text of a finite float writes a number that reads as the float. -/
theorem finiteText_eq (f : Binary64) : ∃ body x,
    finiteText f = (if f.negative then ['-'] else []) ++ body ∧ Writes body x ∧
      (Interval.of f).Contains x := by
  have hsign : ∀ body : List Char, (if f.negative then '-' :: body else body) =
      (if f.negative then ['-'] else []) ++ body := by
    intro body
    split <;> rfl
  unfold finiteText
  dsimp only
  rw [hsign]
  by_cases hzero : f.isZero = true
  · rw [if_pos hzero]
    simp only [isZero, Bool.and_eq_true, beq_iff_eq] at hzero
    refine ⟨"0.0".toList, 0, rfl, ⟨['0'], ['0'], rfl, allDigits_replicate_zero 1,
      allDigits_replicate_zero 1, List.cons_ne_nil _ _, ?_⟩, ?_⟩
    · have hnone : Nat.ofDigitChars 10 (['0'] ++ ['0']) 0 = 0 := by decide
      rw [reading, hnone, Nat.cast_zero, zero_div]
    · have hsignificand : f.significand = 0 := by
        rw [significand, if_pos hzero.1, hzero.2]
      have hpower : (0 : ℚ) < 2 ^ (Interval.of f).power := zpow_pos two_pos _
      simp only [Interval.Contains, Interval.of, hsignificand] at hpower ⊢
      simp [hpower.le]
  · rw [if_neg hzero]
    refine ⟨positional (shortest f), _, rfl, writes_positional _, shortest_contains ?_⟩
    intro hsignificand
    refine hzero ?_
    simp only [isZero, Bool.and_eq_true, beq_iff_eq]
    unfold significand at hsignificand
    split at hsignificand
    · next hfield => exact ⟨hfield, hsignificand⟩
    · omega

/-- No two floats have the same text as finite numbers. -/
theorem finiteText_injective {f g : Binary64} (h : finiteText f = finiteText g) : f = g := by
  obtain ⟨body, x, hf, hbody, hx⟩ := finiteText_eq f
  obtain ⟨body', y, hg, hbody', hy⟩ := finiteText_eq g
  rw [hf, hg] at h
  have hminus : ∀ {text : List Char} {z : ℚ}, Writes text z → ∀ rest, text ≠ '-' :: rest := by
    intro text z htext rest e
    obtain ⟨c, more, hhead, hdigit⟩ := htext.head
    rw [e] at hhead
    rw [← (List.cons.inj hhead).1] at hdigit
    cases hdigit
  -- a body begins with a digit, so the first character is the sign if there is one
  have hsame : f.negative = g.negative ∧ body = body' := by
    cases hneg : f.negative <;> cases hneg' : g.negative <;> simp only [hneg, hneg'] at h
    · exact ⟨rfl, h⟩
    · exact absurd h (hminus hbody body')
    · exact absurd h.symm (hminus hbody' body)
    · exact ⟨rfl, (List.cons.inj h).2⟩
  obtain ⟨hsign, rfl⟩ := hsame
  rw [hbody.unique hbody'] at hx
  exact eq_of_rank (rank_eq_of_contains hx hy) hsign

end TemplateCache.Decimal
