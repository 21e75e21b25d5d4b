import Mathlib.Data.Fintype.Basic
import Mathlib.Logic.Function.Basic
import TemplateCache.Program

/-!
# Programs that take turns

`Program.Turns` says how several programs can overlap: at any time one of them asks its next
question, which is answered in one step, or the state changes from outside. Nothing is said about
whose turn it is.

What holds however they overlap is proved by a *pact* between the parties. A pact speaks of worlds,
which are states with notes about who did what. It says which worlds are fine, what every step may
do, and what a step of others may do. A program keeps the pact (`Pact.Keeps`) if each of its
questions, put in any world that may have come about in the meantime, is answered by a step that
the pact allows. This is shown for one program at a time. Main statement: `Pact.keeps_turns`.
-/

namespace TemplateCache

namespace Program

variable {I : Interface} {ι α β σ : Type}

/-! ## Taking turns -/

section Turns

variable [DecidableEq ι]

/-- Where some programs and their state can come to. -/
inductive Turns (answer : ι → (q : I.Question) → σ → I.Answer q × σ) (outside : σ → σ → Prop)
    (pool : ι → Program I α) (s : σ) : (ι → Program I α) → σ → Prop where
  | start : Turns answer outside pool s pool s
  | turn {pool' : ι → Program I α} {s' : σ} (i : ι) {q : I.Question}
      {next : I.Answer q → Program I α} :
      Turns answer outside pool s pool' s' → pool' i = .ask q next →
      Turns answer outside pool s (Function.update pool' i (next (answer i q s').1))
        (answer i q s').2
  | outside {pool' : ι → Program I α} {s' s'' : σ} :
      Turns answer outside pool s pool' s' → outside s' s'' →
      Turns answer outside pool s pool' s''

/-- What is left of a program after its next question, and the state then. -/
def next (answer : (q : I.Question) → σ → I.Answer q × σ) : Program I α → σ → Program I α × σ
  | .done a, s => (.done a, s)
  | .ask q rest, s => (rest (answer q s).1, (answer q s).2)

/-- What is left of some programs when they have had turns in an order, and the state then. -/
def inOrder (answer : ι → (q : I.Question) → σ → I.Answer q × σ) :
    List ι → (ι → Program I α) → σ → (ι → Program I α) × σ
  | [], pool, s => (pool, s)
  | i :: rest, pool, s =>
      inOrder answer rest (Function.update pool i ((pool i).next (answer i) s).1)
        ((pool i).next (answer i) s).2

/-- The others are where they were. -/
theorem inOrder_of_not_mem {answer : ι → (q : I.Question) → σ → I.Answer q × σ} {order : List ι}
    {i : ι} (h : i ∉ order) (pool : ι → Program I α) (s : σ) :
    (inOrder answer order pool s).1 i = pool i := by
  induction order generalizing pool s with
  | nil => rfl
  | cons j rest ih =>
      rw [List.mem_cons, not_or] at h
      rw [inOrder, ih h.2, Function.update_of_ne h.1]

namespace Turns

variable {answer : ι → (q : I.Question) → σ → I.Answer q × σ} {outside : σ → σ → Prop}
  {pool pool' pool'' : ι → Program I α} {s s' s'' : σ}

/-- Any of the programs may have the first turn. -/
theorem once (i : ι) :
    Turns answer outside pool s (Function.update pool i ((pool i).next (answer i) s).1)
      ((pool i).next (answer i) s).2 := by
  cases hp : pool i with
  | done a =>
      have hsame : Function.update pool i (.done a) = pool := by
        rw [← hp]
        exact Function.update_eq_self i pool
      rw [Program.next, hsame]
      exact .start
  | ask q rest => exact .turn i .start hp

theorem trans (h : Turns answer outside pool s pool' s')
    (h' : Turns answer outside pool' s' pool'' s'') : Turns answer outside pool s pool'' s'' := by
  induction h' with
  | start => exact h
  | turn i _ hask ih => exact ih.turn i hask
  | outside _ hout ih => exact ih.outside hout

/-- The programs may have their turns in any order. -/
theorem inOrder (order : List ι) (pool : ι → Program I α) (s : σ) :
    Turns answer outside pool s (Program.inOrder answer order pool s).1
      (Program.inOrder answer order pool s).2 := by
  induction order generalizing pool s with
  | nil => exact .start
  | cons i rest ih => exact (once i).trans (ih _ _)

/-- One of the programs may run to its end while the others wait. -/
theorem finish (i : ι) :
    Turns answer outside pool s
      (Function.update pool i (.done ((pool i).run (answer i) s).1))
      ((pool i).run (answer i) s).2 := by
  generalize hp : pool i = p
  induction p generalizing pool s with
  | done a =>
      have hsame : Function.update pool i (.done a) = pool := by
        rw [← hp]
        exact Function.update_eq_self i pool
      rw [run, hsame]
      exact .start
  | ask q next ih =>
      have hfirst : Turns answer outside pool s _ _ := .turn i .start hp
      refine hfirst.trans ?_
      have hnext : Function.update pool i (next (answer i q s).1) i = next (answer i q s).1 :=
        Function.update_self ..
      have hrest := ih (answer i q s).1 (s := (answer i q s).2) hnext
      rwa [Function.update_idem] at hrest

/-- However far they have come, all of them can be brought to an end. -/
theorem exists_done [Fintype ι] (answer : ι → (q : I.Question) → σ → I.Answer q × σ)
    (outside : σ → σ → Prop) (pool : ι → Program I α) (s : σ) :
    ∃ (results : ι → α) (s' : σ),
      Turns answer outside pool s (fun i => .done (results i)) s' := by
  -- those in a list are brought to an end one after the other
  have hlist : ∀ todo : List ι, ∃ pool' s', Turns answer outside pool s pool' s' ∧
      ∀ i ∈ todo, ∃ a, pool' i = .done a := by
    intro todo
    induction todo with
    | nil => exact ⟨pool, s, .start, fun i hi => by cases hi⟩
    | cons j rest ih =>
        obtain ⟨pool', s', hturns, hdone⟩ := ih
        refine ⟨_, _, hturns.trans (finish j), fun i hi => ?_⟩
        by_cases hij : i = j
        · subst hij
          exact ⟨_, Function.update_self ..⟩
        · rw [Function.update_of_ne hij]
          exact hdone i ((List.mem_cons.mp hi).resolve_left hij)
  obtain ⟨pool', s', hturns, hdone⟩ := hlist Finset.univ.toList
  choose results hresults using fun i => hdone i (Finset.mem_toList.mpr (Finset.mem_univ i))
  refine ⟨results, s', ?_⟩
  have hpool : pool' = fun i => .done (results i) := funext hresults
  rwa [hpool] at hturns

end Turns

end Turns

end Program

/-! ## Pacts -/

/-- What parties who share a state can rely on. -/
structure Pact (ι σ W : Type) where
  /-- The state that a world is about. -/
  state : W → σ
  /-- What is true at any time. -/
  Fine : W → Prop
  /-- What any step may do. -/
  Seen : W → W → Prop
  /-- What a step may do that is not made by a given party. -/
  Spared : ι → W → W → Prop
  seen_refl : ∀ w, Seen w w
  seen_trans : ∀ {w w' w''}, Seen w w' → Seen w' w'' → Seen w w''
  spared_refl : ∀ i w, Spared i w w
  spared_trans : ∀ {i w w' w''}, Spared i w w' → Spared i w' w'' → Spared i w w''

namespace Pact

variable {I : Interface} {ι α β σ W : Type} (pact : Pact ι σ W)
  (answer : ι → (q : I.Question) → σ → I.Answer q × σ)

/-- A world that may have come about by the time that a party has its next turn. -/
structure Later (i : ι) (w w' : W) : Prop where
  fine : pact.Fine w'
  seen : pact.Seen w w'
  spared : pact.Spared i w w'

/-- A step of a party that the pact allows. -/
structure Step (i : ι) (w w' : W) : Prop where
  fine : pact.Fine w'
  seen : pact.Seen w w'
  spared : ∀ j, j ≠ i → pact.Spared j w w'

/-- A program takes nothing but steps that the pact allows, whatever happens between them, and ends
in a world where something is true of its result. -/
def Keeps (i : ι) (Post : α → W → Prop) : Program I α → W → Prop
  | .done a, w => Post a w
  | .ask q next, w => ∀ w', pact.Later i w w' → ∃ w'',
      pact.state w'' = (answer i q (pact.state w')).2 ∧ pact.Step i w' w'' ∧
        Keeps i Post (next (answer i q (pact.state w')).1) w''

/-- What a party knows stays true as long as it does nothing. -/
def Stable (i : ι) (P : W → Prop) : Prop := ∀ {w w' : W}, P w → pact.Later i w w' → P w'

variable {pact answer} {i : ι} {P : α → W → Prop} {Q : β → W → Prop} {w w' : W}

theorem Later.refl (hw : pact.Fine w) : pact.Later i w w :=
  ⟨hw, pact.seen_refl w, pact.spared_refl i w⟩

theorem Step.refl (hw : pact.Fine w) : pact.Step i w w :=
  ⟨hw, pact.seen_refl w, fun j _ => pact.spared_refl j w⟩

theorem Later.trans {w'' : W} (h : pact.Later i w w') (h' : pact.Later i w' w'') :
    pact.Later i w w'' :=
  ⟨h'.fine, pact.seen_trans h.seen h'.seen, pact.spared_trans h.spared h'.spared⟩

theorem Step.trans {w'' : W} (h : pact.Step i w w') (h' : pact.Step i w' w'') :
    pact.Step i w w'' :=
  ⟨h'.fine, pact.seen_trans h.seen h'.seen,
    fun j hj => pact.spared_trans (h.spared j hj) (h'.spared j hj)⟩

/-- To every other party a step is something that happens meanwhile. -/
theorem Step.later {j : ι} (h : pact.Step i w w') (hj : j ≠ i) : pact.Later j w w' :=
  ⟨h.fine, h.seen, h.spared j hj⟩

namespace Keeps

theorem pure {a : α} (h : P a w) : pact.Keeps answer i P (Pure.pure a) w := h

theorem bind {p : Program I α} {k : α → Program I β} (hp : pact.Keeps answer i P p w)
    (hw : pact.Fine w) (hk : ∀ a w', pact.Fine w' → P a w' → pact.Keeps answer i Q (k a) w') :
    pact.Keeps answer i Q (p >>= k) w := by
  induction p generalizing w with
  | done a => exact hk a w hw hp
  | ask q next ih =>
      intro w' hlater
      obtain ⟨w'', hstate, hstep, hrest⟩ := hp w' hlater
      exact ⟨w'', hstate, hstep, ih _ hrest hstep.fine⟩

theorem mono {P' : α → W → Prop} {p : Program I α} (hp : pact.Keeps answer i P p w)
    (hw : pact.Fine w) (h : ∀ a w', pact.Fine w' → P a w' → P' a w') :
    pact.Keeps answer i P' p w := by
  have hbind := hp.bind (k := Pure.pure) hw fun a w' hw' ha => Keeps.pure (h a w' hw' ha)
  rwa [bind_pure] at hbind

/-- What a program has come to in the end it could also have seen happen. -/
theorem and_seen {p : Program I α} (h : pact.Keeps answer i P p w) :
    pact.Keeps answer i (fun a w' => P a w' ∧ pact.Seen w w') p w := by
  induction p generalizing w with
  | done a => exact ⟨h, pact.seen_refl w⟩
  | ask q next ih =>
      intro w' hlater
      obtain ⟨w'', hstate, hstep, hrest⟩ := h w' hlater
      refine ⟨w'', hstate, hstep, (ih _ hrest).mono hstep.fine ?_⟩
      rintro a w₃ - ⟨ha, hseen⟩
      exact ⟨ha, pact.seen_trans hlater.seen (pact.seen_trans hstep.seen hseen)⟩

/-- A question is put at some later time, and its answer is a step. -/
theorem ask {q : I.Question} {k : I.Answer q → Program I β}
    (h : ∀ w', pact.Later i w w' → ∃ w'', pact.state w'' = (answer i q (pact.state w')).2 ∧
      pact.Step i w' w'' ∧ pact.Keeps answer i Q (k (answer i q (pact.state w')).1) w'') :
    pact.Keeps answer i Q (Program.question q >>= k) w := h

/-- A question whose answer changes nothing. -/
theorem look {q : I.Question} {k : I.Answer q → Program I β}
    (hstill : ∀ s, (answer i q s).2 = s)
    (h : ∀ w', pact.Later i w w' →
      pact.Keeps answer i Q (k (answer i q (pact.state w')).1) w') :
    pact.Keeps answer i Q (Program.question q >>= k) w :=
  ask fun w' hlater => ⟨w', (hstill _).symm, .refl hlater.fine, h w' hlater⟩

/-- A program that keeps a pact keeps it while it does nothing. -/
theorem later (hstable : ∀ a, pact.Stable i (P a)) {p : Program I α}
    (h : pact.Keeps answer i P p w) (hlater : pact.Later i w w') :
    pact.Keeps answer i P p w' := by
  cases p with
  | done a => exact hstable a h hlater
  | ask q next => exact fun w'' hlater' => h w'' (hlater.trans hlater')

/-- A program that runs while the others wait. -/
theorem run {p : Program I α} (h : pact.Keeps answer i P p w) (hw : pact.Fine w) :
    ∃ w', pact.state w' = (p.run (answer i) (pact.state w)).2 ∧ pact.Step i w w' ∧
      P (p.run (answer i) (pact.state w)).1 w' := by
  induction p generalizing w with
  | done a => exact ⟨w, rfl, .refl hw, h⟩
  | ask q next ih =>
      obtain ⟨w', hstate, hstep, hrest⟩ := h w (.refl hw)
      obtain ⟨w'', hstate', hstep', hpost⟩ := ih _ hrest hstep.fine
      rw [hstate] at hstate' hpost
      exact ⟨w'', hstate', hstep.trans hstep', hpost⟩

end Keeps

/-! ## Many parties -/

/-- What may happen from outside is something that the pact allows anyone to meet. -/
def Bears (pact : Pact ι σ W) (outside : σ → σ → Prop) : Prop :=
  ∀ {w : W} {s : σ}, pact.Fine w → outside (pact.state w) s →
    ∃ w', pact.state w' = s ∧ pact.Fine w' ∧ pact.Seen w w' ∧ ∀ i, pact.Spared i w w'

/-- What comes of parties that all keep a pact. -/
theorem keeps_turns [DecidableEq ι] {outside : σ → σ → Prop} (hbears : pact.Bears outside)
    {Post : ι → α → W → Prop} (hstable : ∀ i a, pact.Stable i (Post i a))
    {pool pool' : ι → Program I α} {s' : σ} (hw : pact.Fine w)
    (hpool : ∀ i, pact.Keeps answer i (Post i) (pool i) w)
    (h : Program.Turns answer outside pool (pact.state w) pool' s') :
    ∃ w', pact.state w' = s' ∧ pact.Fine w' ∧ pact.Seen w w' ∧
      ∀ i, pact.Keeps answer i (Post i) (pool' i) w' := by
  induction h with
  | start => exact ⟨w, rfl, hw, pact.seen_refl w, hpool⟩
  | turn i _ hask ih =>
      obtain ⟨w', rfl, hfine, hseen, hkeeps⟩ := ih
      have hturn := hkeeps i
      rw [hask] at hturn
      obtain ⟨w'', hstate, hstep, hrest⟩ := hturn w' (.refl hfine)
      refine ⟨w'', hstate, hstep.fine, pact.seen_trans hseen hstep.seen, fun j => ?_⟩
      -- for whoever had the turn the program went on, for all others time has passed
      by_cases hj : j = i
      · subst hj
        rw [Function.update_self]
        exact hrest
      · rw [Function.update_of_ne hj]
        exact (hkeeps j).later (hstable j) (hstep.later hj)
  | outside _ hout ih =>
      obtain ⟨w', rfl, hfine, hseen, hkeeps⟩ := ih
      obtain ⟨w'', hstate, hfine', hseen', hspared⟩ := hbears hfine hout
      exact ⟨w'', hstate, hfine', pact.seen_trans hseen hseen', fun j =>
        (hkeeps j).later (hstable j) ⟨hfine', hseen', hspared j⟩⟩

end Pact

end TemplateCache
