import TemplateCache.DefaultDir
import TemplateCache.Proofs.Program.Turns

/-!
# Calls for the default directory that overlap

Several calls may look for the directory before one of them has published it. Then each of them asks
the resolver, and each of them may find a root: the resolver succeeds more than once, though the
directory is to be found once (`overlapping_calls_both_find`). Whoever publishes second is answered
what was published first, so the calls agree on the path all the same.

What was asked and answered is written down beside the state. Two invariants carry the proof: each
call has asked its questions in their order (`Course`), and no call that looks after a publication
finds nothing (`Fine.early`). So the calls whose resolver succeeded all looked before any of them had
published, and if no two calls overlap there is one at most. Main statement: `calls_agree`.
-/

namespace TemplateCache

namespace DefaultDir

/-! ## What was asked -/

/-- A question of a caller with its answer. -/
structure Exchange (ι : Type) where
  caller : ι
  question : DirQuestion
  answer : question.Answer

namespace Exchange

variable {ι : Type}

/-- The caller looked for the directory. -/
def Looks (e : Exchange ι) : Prop := e.question = .held

/-- The caller looked for the directory, and there was none. -/
def FindsNone (e : Exchange ι) : Prop := ∃ i, e = ⟨i, .held, none⟩

/-- The caller offered a directory. -/
def Publishes (e : Exchange ι) : Prop := ∃ dir, e.question = .publish dir

/-- The caller ran the resolver, and it found a root. -/
def succeeds : Exchange ι → Bool
  | ⟨_, .resolve, .ok _⟩ => true
  | _ => false

end Exchange

/-- A default directory that callers share, with its resolver, and what they have asked, the last
first. -/
structure Race (ι σ : Type) where
  dir : DefaultDir
  resolver : σ
  history : List (Exchange ι)

namespace Race

variable {ι σ : Type}

/-- The answer to a question of a caller. -/
def answer (resolve : σ → Except ConfigError Path × σ) (i : ι) (q : DirQuestion)
    (w : Race ι σ) : q.Answer × Race ι σ :=
  let r := DefaultDir.answer resolve q (w.dir, w.resolver)
  (r.1, ⟨r.2.1, r.2.2, ⟨i, q, r.1⟩ :: w.history⟩)

/-- A directory that was found stays. -/
theorem resolved_answer (resolve : σ → Except ConfigError Path × σ) (i : ι) (q : DirQuestion)
    {w : Race ι σ} {dir : Path} (h : w.dir.resolved = some dir) :
    (answer resolve i q w).2.dir.resolved = some dir := by
  cases q with
  | held => exact h
  | resolve => exact h
  | announce other => exact h
  | publish other => exact congrArg (fun kept => some (kept.getD other)) h

/-- What may happen between two questions: only the resolver may come to another state. -/
def Meanwhile (w w' : Race ι σ) : Prop := w'.dir = w.dir ∧ w'.history = w.history

/-- The runs of the resolver that found a root. -/
def successes (w : Race ι σ) : Nat := w.history.countP Exchange.succeeds

/-- The resolver found a root for a caller. -/
def Succeeded (w : Race ι σ) (i : ι) : Prop :=
  ∃ e ∈ w.history, e.caller = i ∧ e.succeeds = true

/-- A caller had published a directory when another looked for it. -/
def PublishedBefore (w : Race ι σ) (i j : ι) : Prop :=
  ∃ late early : Exchange ι, late.caller = j ∧ late.Looks ∧ early.caller = i ∧ early.Publishes ∧
    [late, early].Sublist w.history

/-- Neither of two callers had published a directory when the other looked for it. -/
def Overlap (w : Race ι σ) (i j : ι) : Prop := ¬w.PublishedBefore i j ∧ ¬w.PublishedBefore j i

end Race

/-! ## The course of a call -/

/-- What a caller has asked so far, the last first. -/
inductive Course {ι : Type} (subdir : Path) (i : ι) : List (Exchange ι) → Prop where
  | idle : Course subdir i []
  | looked (held : Option Path) : Course subdir i [⟨i, .held, held⟩]
  | asked (root : Except ConfigError Path) :
      Course subdir i [⟨i, .resolve, root⟩, ⟨i, .held, none⟩]
  | announced (root : Path) : Course subdir i
      [⟨i, .announce (root.join subdir), ()⟩, ⟨i, .resolve, .ok root⟩, ⟨i, .held, none⟩]
  | published (root kept : Path) : Course subdir i
      [⟨i, .publish (root.join subdir), kept⟩, ⟨i, .announce (root.join subdir), ()⟩,
        ⟨i, .resolve, .ok root⟩, ⟨i, .held, none⟩]

namespace Course

variable {ι : Type} {subdir : Path} {i : ι} {own : List (Exchange ι)}

/-- A caller runs the resolver once at most. -/
theorem countP_le (h : Course subdir i own) : own.countP Exchange.succeeds ≤ 1 := by
  cases h with
  | idle => exact Nat.zero_le 1
  | looked held => exact Nat.zero_le 1
  | asked root =>
      cases root with
      | error e => exact Nat.zero_le 1
      | ok root => exact Nat.le_refl 1
  | announced root => exact Nat.le_refl 1
  | published root kept => exact Nat.le_refl 1

/-- A caller whose resolver found a root had looked for the directory and found none. -/
theorem findsNone (h : Course subdir i own) {e : Exchange ι} (he : e ∈ own)
    (hsucceeds : e.succeeds = true) : ∀ look ∈ own, look.Looks → look.FindsNone := by
  cases h with
  | idle => cases he
  | looked held =>
      obtain rfl := List.mem_singleton.mp he
      cases hsucceeds
  | asked root => simp [Exchange.Looks, Exchange.FindsNone]
  | announced root => simp [Exchange.Looks, Exchange.FindsNone]
  | published root kept => simp [Exchange.Looks, Exchange.FindsNone]

end Course

/-! ## What the callers rely on -/

namespace Race

variable {ι σ : Type} [DecidableEq ι] {subdir : Path} {i j : ι} {w w' : Race ι σ}

/-- What a caller has asked. -/
def own (w : Race ι σ) (i : ι) : List (Exchange ι) := w.history.filter fun e => e.caller = i

/-- What is true at any time. -/
structure Fine (subdir : Path) (w : Race ι σ) : Prop where
  course : ∀ i, Course subdir i (w.own i)
  unpublished : w.dir.resolved = none → ∀ e ∈ w.history, ¬e.Publishes
  /-- Who looks after a publication finds a directory. -/
  early : w.history.Pairwise fun late early => early.Publishes → ¬late.FindsNone

/-- A directory that was found stays, and a step of another is not one's own. -/
def pact (ι σ : Type) [DecidableEq ι] (subdir : Path) : Pact ι (Race ι σ) (Race ι σ) where
  state := id
  Fine := Fine subdir
  Seen := fun w w' => ∀ dir, w.dir.resolved = some dir → w'.dir.resolved = some dir
  Spared := fun i w w' => w'.own i = w.own i
  seen_refl := fun _ _ h => h
  seen_trans := fun h h' dir hdir => h' dir (h dir hdir)
  spared_refl := fun _ _ => rfl
  spared_trans := fun h h' => h'.trans h

section Steps

variable (resolve : σ → Except ConfigError Path × σ)

theorem own_answer_self (i : ι) (q : DirQuestion) (w : Race ι σ) :
    (answer resolve i q w).2.own i = ⟨i, q, (answer resolve i q w).1⟩ :: w.own i :=
  List.filter_cons_of_pos (decide_eq_true rfl)

theorem own_answer_of_ne (h : j ≠ i) (q : DirQuestion) (w : Race ι σ) :
    (answer resolve i q w).2.own j = w.own j :=
  List.filter_cons_of_neg (by simpa using h.symm)

/-- A step of a caller that keeps its course. -/
theorem step_answer (hw : Fine subdir w) {q : DirQuestion}
    (hcourse : Course subdir i (⟨i, q, (answer resolve i q w).1⟩ :: w.own i)) :
    (pact ι σ subdir).Step i w (answer resolve i q w).2 := by
  refine ⟨⟨?_, ?_, ?_⟩, fun dir => resolved_answer resolve i q,
    fun j hj => own_answer_of_ne resolve hj q w⟩
  · intro j
    by_cases hj : j = i
    · subst hj
      rw [own_answer_self]
      exact hcourse
    · rw [own_answer_of_ne resolve hj]
      exact hw.course j
  · intro hnone e he
    -- after a publication there is a directory
    have hbefore : w.dir.resolved = none := by
      cases hdir : w.dir.resolved with
      | none => rfl
      | some dir => cases (resolved_answer resolve i q hdir).symm.trans hnone
    rcases List.mem_cons.mp he with rfl | he
    · rintro ⟨dir, hdir⟩
      change q = .publish dir at hdir
      subst hdir
      cases hnone
    · exact hw.unpublished hbefore e he
  · refine List.pairwise_cons.mpr ⟨?_, hw.early⟩
    intro e he hpublishes
    rintro ⟨k, hk⟩
    obtain ⟨rfl, hq, hanswer⟩ := Exchange.mk.inj hk
    subst hq
    exact hw.unpublished (eq_of_heq hanswer) e he hpublishes

/-! ## A call keeps to it -/

/-- A caller goes on after the answer to a question that is in its course. -/
theorem keeps_ask {α : Type} {q : DirQuestion} {past : List (Exchange ι)}
    {Post : α → Race ι σ → Prop} {k : q.Answer → Program DirInterface α}
    (hpast : w.own i = past)
    (h : ∀ w', Fine subdir w' → (answer resolve i q w').2.own i =
        ⟨i, q, (answer resolve i q w').1⟩ :: past →
      Course subdir i (⟨i, q, (answer resolve i q w').1⟩ :: past) ∧
      (pact ι σ subdir).Keeps (I := DirInterface) (answer resolve) i Post
        (k (answer resolve i q w').1) (answer resolve i q w').2) :
    (pact ι σ subdir).Keeps (I := DirInterface) (answer resolve) i Post (ask q >>= k) w := by
  refine Pact.Keeps.ask fun w' hlater => ?_
  have hown : w'.own i = past := hlater.spared.trans hpast
  obtain ⟨hcourse, hrest⟩ := h w' hlater.fine (hown ▸ own_answer_self resolve i q w')
  exact ⟨_, rfl, step_answer resolve hlater.fine (hown ▸ hcourse), hrest⟩

/-- What is known when a call is done. -/
def Answered (result : Except ConfigError Path) (w : Race ι σ) : Prop :=
  ∀ dir, result = .ok dir → w.dir.resolved = some dir

/-- A call for the directory keeps to its course, and in the end what it answers is kept. -/
theorem keeps_get (hown : w.own i = []) :
    (pact ι σ subdir).Keeps (I := DirInterface) (answer resolve) i Answered (get subdir) w := by
  refine keeps_ask resolve hown fun w₁ _ hlooked => ⟨.looked _, ?_⟩
  cases hheld : (answer resolve i .held w₁).1 with
  | some dir =>
      refine Pact.Keeps.pure fun dir' hdir' => ?_
      cases hdir'
      exact resolved_answer resolve i .held hheld
  | none =>
      rw [hheld] at hlooked
      refine keeps_ask resolve hlooked fun w₂ _ hasked => ⟨.asked _, ?_⟩
      cases hroot : (answer resolve i .resolve w₂).1 with
      | error e => exact Pact.Keeps.pure fun dir hdir => by cases hdir
      | ok root =>
          rw [hroot] at hasked
          refine keeps_ask resolve hasked fun w₃ _ hannounced => ⟨.announced root, ?_⟩
          refine keeps_ask resolve hannounced fun w₄ _ _ => ⟨.published root _, ?_⟩
          refine Pact.Keeps.pure fun dir hdir => ?_
          cases hdir
          rfl

end Steps

/-! ## Runs of the resolver -/

/-- Whoever looked after a publication did not come to run the resolver. -/
theorem Fine.not_publishedBefore (hw : Fine subdir w) (h : w.Succeeded j) :
    ¬w.PublishedBefore i j := by
  rintro ⟨late, early, hlate, hlooks, -, hpublishes, hsublist⟩
  obtain ⟨e, he, hcaller, hsucceeds⟩ := h
  have hown : ∀ e ∈ w.history, e.caller = j → e ∈ w.own j := fun e he hcaller =>
    List.mem_filter.mpr ⟨he, decide_eq_true hcaller⟩
  have hlate' : late ∈ w.own j := hown late (hsublist.subset List.mem_cons_self) hlate
  have hpair := List.pairwise_iff_forall_sublist.mp hw.early hsublist
  exact hpair hpublishes ((hw.course j).findsNone (hown e he hcaller) hsucceeds late hlate' hlooks)

theorem Fine.overlap (hw : Fine subdir w) (hi : w.Succeeded i) (hj : w.Succeeded j) :
    w.Overlap i j := ⟨hw.not_publishedBefore hj, hw.not_publishedBefore hi⟩

/-- The resolver found one root at most if it found one for one caller at most. -/
theorem Fine.successes_le_one_iff (hw : Fine subdir w) :
    w.successes ≤ 1 ↔ ∀ i j, w.Succeeded i → w.Succeeded j → i = j := by
  constructor
  · rintro hle i j ⟨e, he, rfl, hsucceeds⟩ ⟨e', he', rfl, hsucceeds'⟩
    rw [successes, List.countP_eq_length_filter] at hle
    have hmem := List.mem_filter.mpr ⟨he, hsucceeds⟩
    have hmem' := List.mem_filter.mpr ⟨he', hsucceeds'⟩
    obtain ⟨only, honly⟩ :=
      List.length_eq_one_iff.mp (Nat.le_antisymm hle (List.length_pos_of_mem hmem))
    rw [honly] at hmem hmem'
    rw [List.mem_singleton.mp hmem, List.mem_singleton.mp hmem']
  · intro hone
    by_cases hsome : ∃ i, w.Succeeded i
    · -- all the successes are among what this caller asked
      obtain ⟨i, hi⟩ := hsome
      have hown : w.successes = (w.own i).countP Exchange.succeeds := by
        unfold successes own
        rw [List.countP_filter]
        refine List.countP_congr fun e he => ?_
        rw [Bool.and_eq_true, decide_eq_true_iff]
        exact ⟨fun hsucceeds => ⟨hsucceeds, hone _ _ ⟨e, he, rfl, hsucceeds⟩ hi⟩, And.left⟩
      rw [hown]
      exact (hw.course i).countP_le
    · have hzero : w.successes = 0 := List.countP_eq_zero.mpr fun e he hsucceeds =>
        hsome ⟨e.caller, e, he, rfl, hsucceeds⟩
      exact hzero ▸ Nat.zero_le 1

/-! ## Any number of calls -/

variable {resolve : σ → Except ConfigError Path × σ} {d : DefaultDir} {s : σ}
  {pool : ι → Program DirInterface (Except ConfigError Path)}

/-- The callers bear a resolver that comes to another state meanwhile. -/
theorem bears_meanwhile : (pact ι σ subdir).Bears Meanwhile := by
  rintro w w' hw ⟨hdir, hhistory⟩
  have hown : ∀ i, w'.own i = w.own i := fun i => congrArg (List.filter _) hhistory
  refine ⟨w', rfl, ⟨fun i => hown i ▸ hw.course i, ?_, ?_⟩, fun dir h => ?_, hown⟩
  · rw [hdir, hhistory]
    exact hw.unpublished
  · rw [hhistory]
    exact hw.early
  · rw [hdir]
    exact h

/-- Where calls for one directory come to. -/
theorem fine_of_turns
    (h : Program.Turns (I := DirInterface) (answer resolve) Meanwhile (fun _ => get d.subdir)
      ⟨d, s, []⟩ pool w) :
    Fine d.subdir w ∧ ∀ i dir, pool i = .done (.ok dir) → w.dir.resolved = some dir := by
  have hstart : Fine d.subdir (⟨d, s, []⟩ : Race ι σ) :=
    ⟨fun _ => .idle, fun _ e he => (by cases he), .nil⟩
  have hkeeps : ∀ i, (pact ι σ d.subdir).Keeps (I := DirInterface) (answer resolve) i Answered
      (get d.subdir) ⟨d, s, []⟩ := fun i => keeps_get resolve rfl
  have hstable : ∀ (i : ι) result, (pact ι σ d.subdir).Stable i (Answered result) :=
    fun i result w w' hanswered hlater dir hdir => hlater.seen dir (hanswered dir hdir)
  obtain ⟨w', rfl, hfine, -, hend⟩ := Pact.keeps_turns bears_meanwhile hstable hstart hkeeps h
  refine ⟨hfine, fun i dir hdone => ?_⟩
  have hanswered := hend i
  rw [hdone] at hanswered
  exact hanswered dir rfl

/-- What has come of calls for one directory. -/
structure Agreement (pool : ι → Program DirInterface (Except ConfigError Path))
    (w : Race ι σ) : Prop where
  /-- The calls that succeeded answered the same path. -/
  same : ∀ i j p q, pool i = .done (.ok p) → pool j = .done (.ok q) → p = q
  /-- The resolver found a root once at most for each of them. -/
  once : ∀ i, (w.own i).countP Exchange.succeeds ≤ 1
  /-- It found roots for two of them only where these overlapped. -/
  overlap : ∀ i j, w.Succeeded i → w.Succeeded j → w.Overlap i j
  /-- It found one root at most just if no two for which it found one overlapped. -/
  single : w.successes ≤ 1 ↔ ∀ i j, w.Succeeded i → w.Succeeded j → w.Overlap i j → i = j

/-- **Calls that overlap agree.** However many calls look for one default directory, whatever its
resolver answers to them, and in whatever order their questions are answered: all calls that succeed
answer the same path, and if of any two calls one had published its directory when the other looked,
the resolver found a root once at most. -/
theorem calls_agree
    (h : Program.Turns (I := DirInterface) (answer resolve) Meanwhile (fun _ => get d.subdir)
      ⟨d, s, []⟩ pool w) : Agreement pool w := by
  obtain ⟨hfine, hkept⟩ := fine_of_turns h
  refine ⟨?_, fun i => (hfine.course i).countP_le, fun i j => hfine.overlap, ?_⟩
  · intro i j p q hp hq
    exact Option.some.inj ((hkept i p hp).symm.trans (hkept j q hq))
  · rw [hfine.successes_le_one_iff]
    constructor
    · intro hone i j hi hj _
      exact hone i j hi hj
    · intro hone i j hi hj
      exact hone i j hi hj (hfine.overlap hi hj)

/-! ### Two calls -/

/-- Finds another root after the first call. -/
def fickleResolver (calls : Nat) : Except ConfigError Path × Nat :=
  (.ok (.ofString (if calls = 0 then "/first" else "/second")), calls + 1)

/-- Both look before one of them publishes, and the second that runs the resolver publishes
first. -/
def rivals : (Bool → Program DirInterface (Except ConfigError Path)) × Race Bool Nat :=
  Program.inOrder (I := DirInterface) (answer fickleResolver)
    [true, false, true, false, false, false, true, true]
    (fun _ => get (.ofString "mails")) ⟨fresh (.ofString "mails"), 0, []⟩

theorem turns_rivals : Program.Turns (I := DirInterface) (answer fickleResolver) Meanwhile
    (fun _ => get (.ofString "mails")) ⟨fresh (.ofString "mails"), 0, []⟩ rivals.1 rivals.2 :=
  .inOrder ..

theorem rivals_done (i : Bool) : rivals.1 i = .done (.ok (.ofString "/second/mails")) := by
  cases i <;> rfl

theorem calls_agree_rivals : ∃ p q, rivals.1 true = .done (.ok p) ∧ rivals.1 false = .done (.ok q) ∧
    p = q ∧ ∃ i j, rivals.2.Overlap i j ∧ i ≠ j := by
  have hagree := calls_agree (d := fresh (.ofString "mails")) turns_rivals
  have hmany : ¬rivals.2.successes ≤ 1 := by decide
  refine ⟨_, _, rivals_done true, rivals_done false,
    hagree.same true false _ _ (rivals_done true) (rivals_done false), ?_⟩
  by_contra hnone
  refine hmany (hagree.single.mpr ?_)
  intro i j _ _ hoverlap
  by_contra hij
  exact hnone ⟨i, j, hoverlap, hij⟩

/-- The resolver finds a root for both of two calls that overlap. -/
theorem overlapping_calls_both_find :
    ∃ (pool : Bool → Program DirInterface (Except ConfigError Path)) (w : Race Bool Nat),
      Program.Turns (I := DirInterface) (answer fickleResolver) Meanwhile
        (fun _ => get (.ofString "mails")) ⟨fresh (.ofString "mails"), 0, []⟩ pool w ∧
      (∀ i, ∃ dir, pool i = .done (.ok dir)) ∧ w.successes = 2 :=
  ⟨_, _, turns_rivals, fun i => ⟨_, rivals_done i⟩, by rfl⟩

end Race

end DefaultDir

end TemplateCache
