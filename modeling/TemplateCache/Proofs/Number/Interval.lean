import Mathlib.Algebra.Order.Field.Power
import Mathlib.Algebra.Order.Field.Rat
import Mathlib.Algebra.Order.Ring.Cast
import Mathlib.Data.Nat.Cast.Order.Field
import Mathlib.Tactic.FieldSimp
import Mathlib.Tactic.Linarith
import Mathlib.Tactic.NormNum
import Mathlib.Tactic.Positivity
import Mathlib.Tactic.Ring
import TemplateCache.Proofs.Number.Digits

/-!
# The numbers that read as a float

Every finite float has an interval of numbers that read as it. Two facts make the text of a float
tell which float it is. The intervals of different floats have no number in common
(`lt_of_contains`), and the number that is written for a float lies in its interval
(`shortest_contains`).

For the first, floats of one sign are counted upwards from zero (`Binary64.rank`). All bounds are
integers in a quarter of the least float, the interval of every float ends where the next one's
begins or before, and of two neighbours only the even one owns the bound between them.
-/

namespace TemplateCache

namespace Binary64

/-- The place of a float among the floats of its sign, from zero upwards. -/
def rank (f : Binary64) : Nat := f.bits.toNat % 2 ^ 63

theorem exponentField_eq (f : Binary64) : f.exponentField = f.rank / 2 ^ 52 := by
  unfold exponentField rank
  omega

theorem fraction_eq (f : Binary64) : f.fraction = f.rank % 2 ^ 52 := by
  unfold fraction rank
  omega

theorem significand_eq (f : Binary64) : f.significand =
    if f.rank / 2 ^ 52 = 0 then f.rank % 2 ^ 52 else 2 ^ 52 + f.rank % 2 ^ 52 := by
  rw [significand, exponentField_eq, fraction_eq]
  norm_num

theorem significand_lt (f : Binary64) : f.significand < 2 ^ 53 := by
  unfold significand fraction
  split <;> omega

theorem significand_mod_two (f : Binary64) : f.significand % 2 = f.rank % 2 := by
  unfold significand
  rw [fraction_eq]
  split <;> omega

theorem eq_of_rank {f g : Binary64} (hrank : f.rank = g.rank) (hsign : f.negative = g.negative) :
    f = g := by
  have hf := f.bits.toNat_lt
  have hg := g.bits.toNat_lt
  have hbits : f.bits.toNat = g.bits.toNat := by
    unfold rank at hrank
    have hsign' : 2 ^ 63 ≤ f.bits.toNat ↔ 2 ^ 63 ≤ g.bits.toNat := decide_eq_decide.mp hsign
    omega
  exact congrArg Binary64.mk (UInt64.toNat_inj.mp hbits)

end Binary64

namespace Decimal

open Binary64

/-! ## Bounds by rank -/

/-- How many quarters of the least float make a quarter of the last place of the float with a
rank. -/
def unitAt (rank : Nat) : Nat := 2 ^ (rank / 2 ^ 52 - 1)

def significandAt (rank : Nat) : Nat :=
  if rank / 2 ^ 52 = 0 then rank % 2 ^ 52 else 2 ^ 52 + rank % 2 ^ 52

/-- The lower bound of the float with a rank, in quarters of the least float. -/
def lowerAt (rank : Nat) : Nat :=
  (4 * significandAt rank - if rank / 2 ^ 52 ≠ 0 ∧ rank % 2 ^ 52 = 0 then 1 else 2) * unitAt rank

/-- The upper bound of the float with a rank, in quarters of the least float. -/
def upperAt (rank : Nat) : Nat := (4 * significandAt rank + 2) * unitAt rank

theorem lowerAt_lt_upperAt (rank : Nat) : lowerAt rank < upperAt rank := by
  have hunit : 0 < unitAt rank := Nat.two_pow_pos _
  exact Nat.mul_lt_mul_of_pos_right (by omega) hunit

/-- No interval reaches into the next one. -/
theorem upperAt_le_lowerAt_succ (rank : Nat) : upperAt rank ≤ lowerAt (rank + 1) := by
  by_cases hcarry : rank % 2 ^ 52 + 1 = 2 ^ 52
  · have hmod : (rank + 1) % 2 ^ 52 = 0 := by omega
    have hdiv : (rank + 1) / 2 ^ 52 = rank / 2 ^ 52 + 1 := by omega
    by_cases hzero : rank / 2 ^ 52 = 0
    · -- the least float with a full significand has the same last place as those below it
      have hlast : rank % 2 ^ 52 = 2 ^ 52 - 1 := by omega
      simp only [upperAt, lowerAt, significandAt, unitAt, hmod, hdiv, hzero, hlast]
      norm_num
    -- the last place doubles, and the interval of a power of two reaches down half as far
    · have hpow : 2 ^ (rank / 2 ^ 52) = 2 * 2 ^ (rank / 2 ^ 52 - 1) := by
        rw [← Nat.pow_succ']
        congr 1
        omega
      simp only [upperAt, lowerAt, significandAt, unitAt, hmod, hdiv, hzero, if_false,
        Nat.add_sub_cancel, Nat.succ_ne_zero, ne_eq, not_false_eq_true, and_self, if_true]
      rw [hpow, ← Nat.mul_assoc]
      exact Nat.mul_le_mul_right _ (by omega)
  · have hmod : (rank + 1) % 2 ^ 52 = rank % 2 ^ 52 + 1 := by omega
    have hdiv : (rank + 1) / 2 ^ 52 = rank / 2 ^ 52 := by omega
    simp only [upperAt, lowerAt, significandAt, unitAt, hmod, hdiv, Nat.succ_ne_zero, and_false,
      if_false]
    exact Nat.mul_le_mul_right _ (by split <;> omega)

theorem upperAt_lt_lowerAt {r k : Nat} (h : r + 2 ≤ k) : upperAt r < lowerAt k := by
  induction k, h using Nat.le_induction with
  | base =>
      calc upperAt r ≤ lowerAt (r + 1) := upperAt_le_lowerAt_succ r
        _ < upperAt (r + 1) := lowerAt_lt_upperAt (r + 1)
        _ ≤ lowerAt (r + 2) := upperAt_le_lowerAt_succ (r + 1)
  | succ k _ ih =>
      calc upperAt r < lowerAt k := ih
        _ < upperAt k := lowerAt_lt_upperAt k
        _ ≤ lowerAt (k + 1) := upperAt_le_lowerAt_succ k

/-! ## Intervals -/

/-- A number lies in an interval. -/
def Interval.Contains (i : Interval) (x : ℚ) : Prop :=
  if i.closed then i.low * (2 : ℚ) ^ i.power ≤ x ∧ x ≤ i.high * (2 : ℚ) ^ i.power
  else i.low * (2 : ℚ) ^ i.power < x ∧ x < i.high * (2 : ℚ) ^ i.power

theorem Interval.Contains.le {i : Interval} {x : ℚ} (h : i.Contains x) :
    i.low * (2 : ℚ) ^ i.power ≤ x ∧ x ≤ i.high * (2 : ℚ) ^ i.power := by
  unfold Interval.Contains at h
  split at h
  · exact h
  · exact ⟨h.1.le, h.2.le⟩

theorem Interval.Contains.lt {i : Interval} {x : ℚ} (h : i.Contains x)
    (hclosed : i.closed = false) :
    i.low * (2 : ℚ) ^ i.power < x ∧ x < i.high * (2 : ℚ) ^ i.power := by
  rwa [Interval.Contains, hclosed, if_neg Bool.false_ne_true] at h

/-- A quarter of a float's last place, by its rank. -/
theorem two_zpow_power (f : Binary64) :
    (2 : ℚ) ^ (Interval.of f).power = unitAt f.rank * (2 : ℚ) ^ (-1076 : ℤ) := by
  have hpower : (Interval.of f).power = ((f.rank / 2 ^ 52 - 1 : ℕ) : ℤ) + -1076 := by
    simp only [Interval.of, power, exponentField_eq]
    split <;> omega
  rw [hpower, zpow_add₀ two_ne_zero, zpow_natCast, unitAt, Nat.cast_pow, Nat.cast_ofNat]

theorem low_eq (f : Binary64) : (Interval.of f).low * (2 : ℚ) ^ (Interval.of f).power =
    lowerAt f.rank * (2 : ℚ) ^ (-1076 : ℤ) := by
  have hlow : (Interval.of f).low * unitAt f.rank = lowerAt f.rank := by
    simp only [Interval.of, lowerAt, significandAt, significand_eq, exponentField_eq, fraction_eq]
  rw [two_zpow_power, ← mul_assoc, ← Nat.cast_mul, hlow]

theorem high_eq (f : Binary64) : (Interval.of f).high * (2 : ℚ) ^ (Interval.of f).power =
    upperAt f.rank * (2 : ℚ) ^ (-1076 : ℤ) := by
  have hhigh : (Interval.of f).high * unitAt f.rank = upperAt f.rank := by
    simp only [Interval.of, upperAt, significandAt, significand_eq]
  rw [two_zpow_power, ← mul_assoc, ← Nat.cast_mul, hhigh]

theorem closed_eq (f : Binary64) : (Interval.of f).closed = (f.rank % 2 == 0) := by
  rw [← significand_mod_two]
  rfl

/-- What reads as a float is below what reads as a greater one. -/
theorem lt_of_contains {f g : Binary64} (h : f.rank < g.rank) {x y : ℚ}
    (hx : (Interval.of f).Contains x) (hy : (Interval.of g).Contains y) : x < y := by
  have hunit : (0 : ℚ) < 2 ^ (-1076 : ℤ) := zpow_pos two_pos _
  have hhigh := hx.le.2
  have hlow := hy.le.1
  rw [high_eq] at hhigh
  rw [low_eq] at hlow
  rcases Nat.lt_or_ge (f.rank + 1) g.rank with hfar | hnear
  · have hgap : (upperAt f.rank : ℚ) < lowerAt g.rank := Nat.cast_lt.mpr (upperAt_lt_lowerAt hfar)
    calc x ≤ upperAt f.rank * (2 : ℚ) ^ (-1076 : ℤ) := hhigh
      _ < lowerAt g.rank * (2 : ℚ) ^ (-1076 : ℤ) := by gcongr
      _ ≤ y := hlow
  -- neighbours may share a bound, but one of them is odd and does not own it
  · have hnext : g.rank = f.rank + 1 := by omega
    have hgap :
        upperAt f.rank * (2 : ℚ) ^ (-1076 : ℤ) ≤ lowerAt g.rank * (2 : ℚ) ^ (-1076 : ℤ) := by
      have hle : (upperAt f.rank : ℚ) ≤ lowerAt g.rank :=
        Nat.cast_le.mpr (hnext ▸ upperAt_le_lowerAt_succ f.rank)
      gcongr
    rcases Nat.mod_two_eq_zero_or_one f.rank with heven | hodd
    · have hopen : (Interval.of g).closed = false := by
        rw [closed_eq, beq_eq_false_iff_ne]
        omega
      have hstrict := (hy.lt hopen).1
      rw [low_eq] at hstrict
      exact (hhigh.trans hgap).trans_lt hstrict
    · have hopen : (Interval.of f).closed = false := by
        rw [closed_eq, beq_eq_false_iff_ne]
        omega
      have hstrict := (hx.lt hopen).2
      rw [high_eq] at hstrict
      exact hstrict.trans_le (hgap.trans hlow)

/-- A number reads as one float of each sign at most. -/
theorem rank_eq_of_contains {f g : Binary64} {x : ℚ} (hf : (Interval.of f).Contains x)
    (hg : (Interval.of g).Contains x) : f.rank = g.rank := by
  rcases Nat.lt_trichotomy f.rank g.rank with h | h | h
  · exact absurd (lt_of_contains h hf hg) (lt_irrefl x)
  · exact h
  · exact absurd (lt_of_contains h hg hf) (lt_irrefl x)

/-! ## Positions -/

/-- The number that a scaled decimal is. -/
def Scaled.value (s : Scaled) : ℚ := s.mantissa * (10 : ℚ) ^ s.exponent

/-- What both sides of a position are scaled by to make them integers. -/
def Position.scale (i : Interval) (exponent : ℤ) : ℚ :=
  (2 : ℚ) ^ (-i.power).toNat * (10 : ℚ) ^ (-exponent).toNat

theorem Position.scale_pos (i : Interval) (exponent : ℤ) : 0 < scale i exponent := by
  unfold scale
  positivity

theorem pow_toNat {b : ℚ} (hb : b ≠ 0) (z : ℤ) :
    b ^ z.toNat = b ^ z * b ^ (-z).toNat := by
  have hz : (z.toNat : ℤ) = z + ((-z).toNat : ℤ) := by omega
  rw [← zpow_natCast, hz, zpow_add₀ hb, zpow_natCast]

theorem Position.weight_eq (i : Interval) (exponent : ℤ) :
    ((of i exponent).weight : ℚ) = (10 : ℚ) ^ exponent * scale i exponent := by
  have hten := pow_toNat (b := 10) (by norm_num) exponent
  simp only [of, scale, Nat.pow_eq, Nat.cast_mul, Nat.cast_pow, Nat.cast_ofNat]
  rw [hten]
  ring

theorem Position.unit_eq (i : Interval) (exponent : ℤ) :
    ((of i exponent).unit : ℚ) = (2 : ℚ) ^ i.power * scale i exponent := by
  have htwo := pow_toNat (b := 2) (by norm_num) i.power
  simp only [of, scale, Nat.pow_eq, Nat.cast_mul, Nat.cast_pow, Nat.cast_ofNat]
  rw [htwo]
  ring

theorem Position.weight_pos (i : Interval) (exponent : ℤ) : 0 < (of i exponent).weight := by
  simp only [of, Nat.pow_eq]
  positivity

/-- The test at a position is whether the decimal number lies in the interval. -/
theorem Interval.holds_iff (i : Interval) (exponent : ℤ) (d : ℕ) :
    i.holds (Position.of i exponent) d = true ↔ i.Contains (d * (10 : ℚ) ^ exponent) := by
  have hscale := Position.scale_pos i exponent
  have hweight := Position.weight_eq i exponent
  have hunit := Position.unit_eq i exponent
  -- both sides of the test are integers, and scaled by the same number
  have hle : ∀ a b : ℕ, a * (Position.of i exponent).unit ≤ b * (Position.of i exponent).weight ↔
      a * (2 : ℚ) ^ i.power ≤ b * (10 : ℚ) ^ exponent := by
    intro a b
    rw [← Nat.cast_le (α := ℚ), Nat.cast_mul, Nat.cast_mul, hweight, hunit, ← mul_assoc,
      ← mul_assoc, mul_le_mul_iff_left₀ hscale]
  have hge : ∀ a b : ℕ, b * (Position.of i exponent).weight ≤ a * (Position.of i exponent).unit ↔
      b * (10 : ℚ) ^ exponent ≤ a * (2 : ℚ) ^ i.power := by
    intro a b
    rw [← Nat.cast_le (α := ℚ), Nat.cast_mul, Nat.cast_mul, hweight, hunit, ← mul_assoc,
      ← mul_assoc, mul_le_mul_iff_left₀ hscale]
  unfold Interval.holds Interval.Contains
  split
  · rw [Bool.and_eq_true, decide_eq_true_iff, decide_eq_true_iff, hle, hge]
  · rw [Bool.and_eq_true, decide_eq_true_iff, decide_eq_true_iff, ← Nat.not_le, hge, not_le,
      ← Nat.not_le, hle, not_le]

/-! ## Candidates -/

/-- A candidate has been tested. -/
theorem Interval.contains_of_candidate? {i : Interval} {exponent : ℤ} {s : Scaled}
    (h : i.candidate? exponent = some s) : i.Contains s.value := by
  -- the decimal that is taken has passed the test
  have hvalue : s.exponent = exponent ∧ i.holds (Position.of i exponent) s.mantissa = true := by
    unfold Interval.candidate? at h
    dsimp only at h
    split at h
    · next hdown hup =>
        rw [← Option.some.inj h]
        refine ⟨rfl, ?_⟩
        dsimp only
        split
        · exact hdown
        · exact hup
    · next hdown _ =>
        rw [← Option.some.inj h]
        exact ⟨rfl, hdown⟩
    · next _ hup =>
        rw [← Option.some.inj h]
        exact ⟨rfl, hup⟩
    · cases h
  obtain ⟨rfl, hholds⟩ := hvalue
  exact (i.holds_iff s.exponent s.mantissa).mp hholds

/-- Where the next decimal above a number is at most half a last place away, there is a
candidate. -/
theorem Interval.candidate?_ne_none {i : Interval} {exponent : ℤ} (hlow : i.low ≤ i.value)
    (hhigh : i.high = i.value + 2)
    (hfine : (Position.of i exponent).weight < 2 * (Position.of i exponent).unit) :
    i.candidate? exponent ≠ none := by
  have hweight := Position.weight_pos i exponent
  generalize hp : Position.of i exponent = p at hfine hweight
  have habove : i.value * p.unit < (i.value * p.unit / p.weight + 1) * p.weight := by
    rw [Nat.mul_comm _ p.weight]
    exact Nat.lt_mul_div_succ _ hweight
  have hbelow : i.value * p.unit / p.weight * p.weight ≤ i.value * p.unit := Nat.div_mul_le_self _ _
  -- the step up is less than two quarters, and the interval goes on for two above its value
  have hup : i.holds p (i.value * p.unit / p.weight + 1) = true := by
    have hstart : i.low * p.unit ≤ i.value * p.unit := Nat.mul_le_mul_right _ hlow
    have hstop : (i.value * p.unit / p.weight + 1) * p.weight < i.high * p.unit := by
      rw [hhigh, Nat.add_mul, Nat.add_mul]
      omega
    unfold Interval.holds
    split
    · rw [Bool.and_eq_true, decide_eq_true_iff, decide_eq_true_iff]
      exact ⟨(hstart.trans_lt habove).le, hstop.le⟩
    · rw [Bool.and_eq_true, decide_eq_true_iff, decide_eq_true_iff]
      exact ⟨hstart.trans_lt habove, hstop⟩
  unfold Interval.candidate?
  dsimp only
  rw [hp, hup]
  split <;> simp_all

/-! ## The shortest decimal -/

theorem pow_length_digits_le {n : ℕ} (h : 0 < n) : 10 ^ (digits n).length ≤ 10 * n := by
  have hlength : 0 < (digits n).length := List.length_pos_iff.mpr (digits_ne_nil n)
  obtain ⟨k, hk⟩ : ∃ k, (digits n).length = k + 1 := ⟨_, (Nat.succ_pred_eq_of_pos hlength).symm⟩
  rw [hk, Nat.pow_succ']
  refine Nat.mul_le_mul_left _ (Nat.le_of_not_lt fun hlt => ?_)
  rcases Nat.eq_zero_or_pos k with rfl | hpos
  · omega
  · have hle := (length_digits_le_iff hpos).mpr hlt
    omega

/-- The position to start from is at most one to the left of the leading digit. -/
theorem Interval.ten_zpow_leading_le {i : Interval} (h : 0 < i.value) :
    (10 : ℚ) ^ i.leading ≤ 10 * (i.value * (2 : ℚ) ^ i.power) := by
  have hpow := pow_toNat (b := 2) (by norm_num) i.power
  have hden : (0 : ℚ) < 2 ^ (-i.power).toNat := by positivity
  have hvalue : i.value * (2 : ℚ) ^ i.power =
      ((i.value * 2 ^ i.power.toNat : ℕ) : ℚ) / ((2 ^ (-i.power).toNat : ℕ) : ℚ) := by
    push_cast
    rw [hpow]
    field_simp
  have hnum : 0 < i.value * 2 ^ i.power.toNat := by positivity
  have hden' : 0 < 2 ^ (-i.power).toNat := by positivity
  rw [hvalue]
  simp only [Interval.leading, Nat.pow_eq]
  generalize i.value * 2 ^ i.power.toNat = num at hnum
  generalize 2 ^ (-i.power).toNat = den at hden'
  have hnumQ : (0 : ℚ) < num := Nat.cast_pos.mpr hnum
  have hdenQ : (0 : ℚ) < den := Nat.cast_pos.mpr hden'
  -- a value below one is measured by the digits of its inverse
  split
  · next hle =>
      have hquotient := pow_length_digits_le (Nat.div_pos hle hden')
      rw [zpow_natCast]
      calc (10 : ℚ) ^ (digits (num / den)).length ≤ 10 * ((num / den : ℕ) : ℚ) := by
            exact_mod_cast hquotient
        _ ≤ 10 * (num / den) := by
            have hfloor : ((num / den : ℕ) : ℚ) ≤ num / den := Nat.cast_div_le
            gcongr
  · next hlt =>
      have hlength : 0 < (digits (den / num)).length :=
        List.length_pos_iff.mpr (digits_ne_nil _)
      have hquotient : den / num < 10 ^ (digits (den / num)).length :=
        (length_digits_le_iff hlength).mp (Nat.le_refl _)
      have hdiv : (den : ℚ) < 10 ^ (digits (den / num)).length * num := by
        exact_mod_cast (Nat.div_lt_iff_lt_mul hnum).mp hquotient
      rw [zpow_sub₀ (by norm_num), zpow_one, zpow_natCast, div_le_iff₀ (by positivity)]
      rw [mul_assoc, div_mul_eq_mul_div]
      have hone : (1 : ℚ) ≤ num * 10 ^ (digits (den / num)).length / den := by
        rw [le_div_iff₀ hdenQ, one_mul, mul_comm]
        exact hdiv.le
      linarith

/-- The number that is written for a float other than zero reads as that float. -/
theorem shortest_contains {f : Binary64} (h : f.significand ≠ 0) :
    (Interval.of f).Contains (shortest f).value := by
  have hvalue : 0 < (Interval.of f).value := by
    simp only [Interval.of]
    omega
  -- at the last of the twenty positions the decimals are denser than the floats
  have hfine : (Position.of (Interval.of f) ((Interval.of f).leading - (19 : ℕ))).weight <
      2 * (Position.of (Interval.of f) ((Interval.of f).leading - (19 : ℕ))).unit := by
    have hscale := Position.scale_pos (Interval.of f) ((Interval.of f).leading - (19 : ℕ))
    have hleading := Interval.ten_zpow_leading_le hvalue
    have hpower : (0 : ℚ) < 2 ^ (Interval.of f).power := by positivity
    have hsize : ((Interval.of f).value : ℚ) < 2 ^ 55 := by
      have hsignificand := f.significand_lt
      have hlt : (Interval.of f).value < 2 ^ 55 := by
        simp only [Interval.of]
        omega
      exact_mod_cast hlt
    rw [← Nat.cast_lt (α := ℚ), Nat.cast_mul, Position.weight_eq, Position.unit_eq, ← mul_assoc]
    refine mul_lt_mul_of_pos_right ?_ hscale
    rw [zpow_sub₀ (by norm_num), zpow_natCast, div_lt_iff₀ (by positivity), Nat.cast_ofNat]
    calc (10 : ℚ) ^ (Interval.of f).leading
        ≤ 10 * ((Interval.of f).value * (2 : ℚ) ^ (Interval.of f).power) := hleading
      _ ≤ 10 * (2 ^ 55 * (2 : ℚ) ^ (Interval.of f).power) := by gcongr
      _ < 2 * 2 ^ (Interval.of f).power * 10 ^ 19 := by nlinarith
  have hlast := Interval.candidate?_ne_none (i := Interval.of f)
    (by simp only [Interval.of]; omega) rfl hfine
  unfold shortest
  dsimp only
  cases hfind : (List.range 20).findSome? fun (step : ℕ) =>
      (Interval.of f).candidate? ((Interval.of f).leading - step) with
  | none =>
      exact absurd (List.findSome?_eq_none_iff.mp hfind 19 (by decide)) hlast
  | some s =>
      obtain ⟨step, -, hstep⟩ := List.exists_of_findSome?_eq_some hfind
      exact Interval.contains_of_candidate? hstep

end Decimal

end TemplateCache
