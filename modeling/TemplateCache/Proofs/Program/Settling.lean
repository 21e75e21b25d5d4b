import TemplateCache.Compiler

/-!
# Answers that settle the result

A program is a tree, with a branch for every answer it may get. Some things are true of it because
of the tree alone, whoever answers and in whatever state: that from some answer on every branch
ends well, for one. `Program.Settles` says this, and `result_of_mem_trace` that it holds of
every run in which the answer was given, also of one where others act between two questions.
-/

namespace TemplateCache

namespace Program

variable {I : Interface} {α β σ : Type}

/-- The questions of a run with their answers, in order. -/
def trace (answer : (q : I.Question) → σ → I.Answer q × σ) :
    Program I α → σ → List ((q : I.Question) × I.Answer q)
  | .done _, _ => []
  | .ask q next, s => ⟨q, (answer q s).1⟩ :: (next (answer q s).1).trace answer (answer q s).2

/-- Whatever is answered, the result is of some kind. -/
def Yields (P : α → Prop) : Program I α → Prop
  | .done a => P a
  | .ask _ next => ∀ a, (next a).Yields P

/-- Whatever is answered, the result is of some kind once a telling answer was given. -/
def Settles (telling : (q : I.Question) → I.Answer q → Prop) (P : α → Prop) : Program I α → Prop
  | .done _ => True
  | .ask q next => ∀ a, (telling q a → (next a).Yields P) ∧ (next a).Settles telling P

variable {telling : (q : I.Question) → I.Answer q → Prop} {P : α → Prop} {Q : β → Prop}
  {p : Program I α} {k : α → Program I β}

theorem Yields.run (h : p.Yields P) (answer : (q : I.Question) → σ → I.Answer q × σ) (s : σ) :
    P (p.run answer s).1 := by
  induction p generalizing s with
  | done a => exact h
  | ask q next ih => exact ih _ (h _) _

theorem Yields.any (p : Program I α) : p.Yields fun _ => True := by
  induction p with
  | done a => trivial
  | ask q next ih => exact ih

theorem Yields.bind (hp : p.Yields P) (hk : ∀ a, P a → (k a).Yields Q) : (p >>= k).Yields Q := by
  induction p with
  | done a => exact hk a hp
  | ask q next ih => exact fun a => ih a (hp a)

/-- The result of a run in which a telling answer was given. -/
theorem result_of_mem_trace (h : p.Settles telling P)
    {answer : (q : I.Question) → σ → I.Answer q × σ} {s : σ} {q : I.Question} {a : I.Answer q}
    (hmem : ⟨q, a⟩ ∈ p.trace answer s) (htelling : telling q a) : P (p.run answer s).1 := by
  induction p generalizing s with
  | done _ => cases hmem
  | ask r next ih =>
      obtain ⟨hyields, hsettles⟩ := h (answer r s).1
      rcases List.mem_cons.mp hmem with heq | hmem
      · cases heq
        exact (hyields htelling).run answer _
      · exact ih _ hsettles hmem

namespace Settles

/-- Where nothing is settled whatever is told, nothing telling is answered. -/
theorem not_telling {q : I.Question} {next : I.Answer q → Program I α}
    (h : (Program.ask q next).Settles telling fun _ => False)
    (answer : (q : I.Question) → σ → I.Answer q × σ) (s : σ) : ¬telling q (answer q s).1 :=
  fun htelling => ((h _).1 htelling).run answer s

theorem pure (a : α) : (Pure.pure a : Program I α).Settles telling P := trivial

theorem question {q : I.Question} (h : ∀ a, ¬telling q a) :
    (Program.question q).Settles telling fun _ => False :=
  fun a => ⟨fun htelling => absurd htelling (h a), trivial⟩

/-- Where less is telling, the same is settled by it. -/
theorem weaken {telling' : (q : I.Question) → I.Answer q → Prop} (h : p.Settles telling P)
    (htelling : ∀ q a, telling' q a → telling q a) : p.Settles telling' P := by
  induction p with
  | done a => trivial
  | ask q next ih =>
      exact fun a => ⟨fun hsettled => (h a).1 (htelling q a hsettled), ih a (h a).2⟩

/-- A first part that tells something must leave nothing open for the second. -/
theorem bind (hp : p.Settles telling P) (hkeep : ∀ a, P a → (k a).Yields Q)
    (hk : ∀ a, (k a).Settles telling Q) : (p >>= k).Settles telling Q := by
  induction p with
  | done a => exact hk a
  | ask q next ih =>
      exact fun a => ⟨fun htelling => ((hp a).1 htelling).bind hkeep, ih a (hp a).2⟩

/-- A first part that tells nothing does not count. -/
theorem bind_quiet (hp : p.Settles telling fun _ => False) (hk : ∀ a, (k a).Settles telling Q) :
    (p >>= k).Settles telling Q := bind hp (fun _ h => h.elim) hk

/-- Questions that are put by programs which tell nothing tell nothing. -/
theorem expand_quiet {J : Interface} {put : (q : J.Question) → Program I (J.Answer q)}
    (h : ∀ q, (put q).Settles telling fun _ => False) (p : Program J α) :
    (p.expand put).Settles telling fun _ => False := by
  induction p with
  | done a => trivial
  | ask q next ih => exact bind_quiet (h q) ih

end Settles

end Program

namespace CompileProgram

open Program

variable {α : Type} {telling : (q : CompileQuestion) → q.Answer → Prop} {P : α → Prop}

theorem Settles.onFiles {p : FileProgram α} (h : p.Settles (fun r a => telling (.file r) a) P) :
    (onFiles p).Settles telling P := by
  have hyields : ∀ {p : FileProgram α}, p.Yields P → (CompileProgram.onFiles p).Yields P := by
    intro p hp
    induction p with
    | done a => exact hp
    | ask r next ih => exact fun a => ih a (hp a)
  induction p with
  | done a => trivial
  | ask r next ih => exact fun a => ⟨fun htelling => hyields ((h a).1 htelling), ih a (h a).2⟩

end CompileProgram

end TemplateCache
