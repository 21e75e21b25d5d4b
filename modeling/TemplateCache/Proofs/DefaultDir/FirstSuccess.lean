import TemplateCache.DefaultDir

/-!
# The first root that is found

A default directory asks its resolver for the root until there is one, and never again. The resolver
may be anything that answers and goes on to another state, so nothing is known of its answers. What
one call does is told by three equations, for a directory that was found before, a resolver that
fails, and one that succeeds; a run of calls is then an induction on their number, with `Sought` for
what there is between two of them. Main statement: `first_success_kept`.
-/

namespace TemplateCache

namespace DefaultDir

variable {σ : Type} {resolve : σ → Except ConfigError Path × σ} {d : DefaultDir} {s : σ}

/-! ## One call -/

/-- A directory that was found before is answered, and the resolver is not asked. -/
theorem getWith_of_resolved {dir : Path} (h : d.resolved = some dir) :
    d.getWith resolve s = (.ok dir, (d, s)) := by
  unfold getWith get ask
  rw [Program.run_then, Program.run_question]
  simp only [answer, h]
  rfl

/-- An error of the resolver is answered, and not kept. -/
theorem getWith_of_error {e : ConfigError} (h : d.resolved = none)
    (he : (resolve s).1 = .error e) : d.getWith resolve s = (.error e, (d, (resolve s).2)) := by
  unfold getWith get ask
  rw [Program.run_then, Program.run_question]
  simp only [answer, h]
  rw [Program.run_then, Program.run_question]
  simp only [answer, he]
  rfl

/-- A root that is found is answered with the place under it, which is kept. -/
theorem getWith_of_ok {root : Path} (h : d.resolved = none) (hroot : (resolve s).1 = .ok root) :
    d.getWith resolve s = (.ok (root.join d.subdir),
      (⟨d.subdir, some (root.join d.subdir)⟩, (resolve s).2)) := by
  unfold getWith get ask
  rw [Program.run_then, Program.run_question]
  simp only [answer, h]
  rw [Program.run_then, Program.run_question]
  simp only [answer, hroot]
  rw [Program.run_then, Program.run_question, Program.run_then, Program.run_question]
  simp only [answer, h]
  rfl

/-- A call that succeeds answers what is kept after it. -/
theorem getWith_eq_ok_iff {dir : Path} : (d.getWith resolve s).1 = .ok dir ↔
    (d.getWith resolve s).2.1.resolved = some dir := by
  cases hd : d.resolved with
  | some kept =>
      rw [getWith_of_resolved hd]
      simp [hd]
  | none =>
      cases hanswer : (resolve s).1 with
      | error e =>
          rw [getWith_of_error hd hanswer]
          simp [hd]
      | ok root =>
          rw [getWith_of_ok hd hanswer]
          simp

/-! ## One call after another -/

/-- A resolver that counts its calls. -/
def counted (resolve : σ → Except ConfigError Path × σ) (s : σ × Nat) :
    Except ConfigError Path × (σ × Nat) :=
  ((resolve s.1).1, ((resolve s.1).2, s.2 + 1))

/-- A resolver's state after so many calls. -/
def stateAfter (resolve : σ → Except ConfigError Path × σ) (s : σ) : Nat → σ
  | 0 => s
  | k + 1 => (resolve (stateAfter resolve s k)).2

/-- A resolver's answer to a call, the first of which has the number zero. -/
def answerTo (resolve : σ → Except ConfigError Path × σ) (s : σ) (k : Nat) :
    Except ConfigError Path := (resolve (stateAfter resolve s k)).1

/-- A default directory and its resolver after so many calls for the directory. -/
def afterGets (resolve : σ → Except ConfigError Path × σ) (subdir : Path) (s : σ) :
    Nat → DefaultDir × (σ × Nat)
  | 0 => (fresh subdir, (s, 0))
  | n + 1 =>
      ((afterGets resolve subdir s n).1.getWith (counted resolve)
        (afterGets resolve subdir s n).2).2

/-- The result of a call for the directory, the first of which has the number zero. -/
def resultOf (resolve : σ → Except ConfigError Path × σ) (subdir : Path) (s : σ) (k : Nat) :
    Except ConfigError Path :=
  ((afterGets resolve subdir s k).1.getWith (counted resolve) (afterGets resolve subdir s k).2).1

/-- The resolver's answers before a call are errors. -/
def FailsBefore (resolve : σ → Except ConfigError Path × σ) (s : σ) (k : Nat) : Prop :=
  ∀ j, j < k → ∃ e, answerTo resolve s j = .error e

/-- The resolver finds a root at a call, and not before. -/
def FindsAt (resolve : σ → Except ConfigError Path × σ) (s : σ) (i : Nat) (root : Path) : Prop :=
  FailsBefore resolve s i ∧ answerTo resolve s i = .ok root

/-- What there is after so many calls: nothing was found, and each of them asked the resolver, or
the first root was found, and nobody asked since. -/
inductive Sought (resolve : σ → Except ConfigError Path × σ) (subdir : Path) (s : σ) (n : Nat) :
    DefaultDir × (σ × Nat) → Prop where
  | failed : FailsBefore resolve s n →
      Sought resolve subdir s n (⟨subdir, none⟩, (stateAfter resolve s n, n))
  | found {i : Nat} {root : Path} : i < n → FindsAt resolve s i root →
      Sought resolve subdir s n
        (⟨subdir, some (root.join subdir)⟩, (stateAfter resolve s (i + 1), i + 1))

/-- What one more call does. -/
theorem Sought.step {subdir : Path} {n : Nat} {w : DefaultDir × (σ × Nat)}
    (h : Sought resolve subdir s n w) :
    Sought resolve subdir s (n + 1) (w.1.getWith (counted resolve) w.2).2 := by
  cases h with
  | failed hfails =>
      have hcounted : (counted resolve (stateAfter resolve s n, n)).1 = answerTo resolve s n := rfl
      dsimp only
      cases hanswer : answerTo resolve s n with
      | error e =>
          rw [getWith_of_error rfl (hcounted.trans hanswer)]
          refine .failed fun j hj => ?_
          rcases Nat.lt_succ_iff_lt_or_eq.mp hj with hj | rfl
          · exact hfails j hj
          · exact ⟨e, hanswer⟩
      | ok root =>
          rw [getWith_of_ok rfl (hcounted.trans hanswer)]
          exact .found (Nat.lt_succ_self n) ⟨hfails, hanswer⟩
  | found hlt hfinds =>
      rw [getWith_of_resolved rfl]
      exact .found (Nat.lt_succ_of_lt hlt) hfinds

theorem sought_afterGets (resolve : σ → Except ConfigError Path × σ) (subdir : Path) (s : σ)
    (n : Nat) : Sought resolve subdir s n (afterGets resolve subdir s n) := by
  induction n with
  | zero => exact .failed fun j hj => absurd hj (Nat.not_lt_zero j)
  | succ n ih => exact ih.step

/-- A root that was found was none of the errors before. -/
theorem FindsAt.le {i n : Nat} {root : Path} (h : FindsAt resolve s i root)
    (hfails : FailsBefore resolve s n) : n ≤ i := by
  refine Nat.le_of_not_lt fun hlt => ?_
  obtain ⟨e, he⟩ := hfails i hlt
  cases h.2.symm.trans he

/-- There is one first root. -/
theorem FindsAt.unique {i i' : Nat} {root root' : Path} (h : FindsAt resolve s i root)
    (h' : FindsAt resolve s i' root') : i = i' ∧ root = root' := by
  obtain rfl := Nat.le_antisymm (h'.le h.1) (h.le h'.1)
  exact ⟨rfl, Except.ok.inj (h.2.symm.trans h'.2)⟩

theorem afterGets_of_fails {subdir : Path} {n : Nat} (h : FailsBefore resolve s n) :
    afterGets resolve subdir s n = (⟨subdir, none⟩, (stateAfter resolve s n, n)) := by
  have hsought := sought_afterGets resolve subdir s n
  generalize afterGets resolve subdir s n = w at hsought
  cases hsought with
  | failed _ => rfl
  | found hlt hfinds => exact absurd hlt (Nat.not_lt_of_le (hfinds.le h))

theorem afterGets_of_finds {subdir : Path} {i n : Nat} {root : Path}
    (h : FindsAt resolve s i root) (hlt : i < n) : afterGets resolve subdir s n =
      (⟨subdir, some (root.join subdir)⟩, (stateAfter resolve s (i + 1), i + 1)) := by
  have hsought := sought_afterGets resolve subdir s n
  generalize afterGets resolve subdir s n = w at hsought
  cases hsought with
  | failed hfails => exact absurd hlt (Nat.not_lt_of_le (h.le hfails))
  | found _ hfinds =>
      obtain ⟨rfl, rfl⟩ := h.unique hfinds
      rfl

/-- **The first success is kept, and nothing else.** Whatever a resolver answers, be it a sequence
that ends or one that goes on: a call before its first success answers just the resolver's error to
this call, after as many questions as there were calls, and leaves nothing found; every call from
the first success on answers the place under the first root, which stays found, and the resolver is
not asked again, so that it does not matter what it would answer. -/
theorem first_success_kept (resolve : σ → Except ConfigError Path × σ) (subdir : Path) (s : σ)
    (k : Nat) :
    (FailsBefore resolve s (k + 1) →
      resultOf resolve subdir s k = answerTo resolve s k ∧
      (afterGets resolve subdir s (k + 1)).2.2 = k + 1 ∧
      (afterGets resolve subdir s (k + 1)).1.resolved = none) ∧
    (∀ i root, FindsAt resolve s i root → i ≤ k →
      resultOf resolve subdir s k = .ok (root.join subdir) ∧
      (afterGets resolve subdir s (k + 1)).2.2 = i + 1 ∧
      (afterGets resolve subdir s (k + 1)).1.resolved = some (root.join subdir)) := by
  constructor
  · intro hfails
    have hbefore : afterGets resolve subdir s k = _ :=
      afterGets_of_fails fun j hj => hfails j (Nat.lt_succ_of_lt hj)
    obtain ⟨e, he⟩ := hfails k (Nat.lt_succ_self k)
    have hcounted : (counted resolve (stateAfter resolve s k, k)).1 = .error e := he
    rw [afterGets_of_fails hfails]
    refine ⟨?_, rfl, rfl⟩
    unfold resultOf
    rw [hbefore, getWith_of_error rfl hcounted, he]
  · intro i root hfinds hik
    have hafter : afterGets resolve subdir s (k + 1) = _ :=
      afterGets_of_finds hfinds (Nat.lt_succ_of_le hik)
    rw [hafter]
    refine ⟨getWith_eq_ok_iff.mpr ?_, rfl, rfl⟩
    exact congrArg (fun w => w.1.resolved) hafter

/-! ### A resolver that fails twice -/

/-- Fails, with another reason each time, and from the third call on finds another root each time. -/
def moodyResolver (calls : Nat) : Except ConfigError Path × Nat :=
  (if calls < 2 then .error (.noRoot (if calls = 0 then "first" else "second"))
    else .ok (.ofString (if calls = 2 then "/r" else "/late")), calls + 1)

theorem first_success_kept_moody :
    resultOf moodyResolver (.ofString "mails") 0 1 = .error (.noRoot "second") ∧
    (afterGets moodyResolver (.ofString "mails") 0 2).2.2 = 2 ∧
    resultOf moodyResolver (.ofString "mails") 0 6 = .ok (.ofString "/r/mails") ∧
    (afterGets moodyResolver (.ofString "mails") 0 7).2.2 = 3 := by
  have hfails : FailsBefore moodyResolver 0 2 := fun j hj => by
    cases j with
    | zero => exact ⟨_, rfl⟩
    | succ j =>
        cases j with
        | zero => exact ⟨_, rfl⟩
        | succ j => omega
  have hfinds : FindsAt moodyResolver 0 2 (.ofString "/r") := ⟨hfails, rfl⟩
  obtain ⟨herror, hasked, -⟩ :=
    (first_success_kept moodyResolver (.ofString "mails") 0 1).1 hfails
  obtain ⟨hdir, hcalls, -⟩ :=
    (first_success_kept moodyResolver (.ofString "mails") 0 6).2 2 _ hfinds (by decide)
  exact ⟨herror.trans rfl, hasked, hdir.trans (congrArg Except.ok (by decide)), hcalls⟩

end DefaultDir

end TemplateCache
