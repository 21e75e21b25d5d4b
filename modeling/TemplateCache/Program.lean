/-!
# Programs

Work that talks to its surroundings is a *program*: a value that is either done or asks one
question and goes on with the answer. What a program does is thereby data. Running it with one
party that answers gives its meaning in sequence; taking one question at a time from several
programs in turn gives every way they can overlap.

A question is the unit of overlap: whoever answers it does so in one step.
-/

namespace TemplateCache

/-- What a program may ask, and what kind of answer each question gets. -/
structure Interface where
  Question : Type
  Answer : Question → Type

/-- A program over an interface with a result. -/
inductive Program (I : Interface) (α : Type) : Type where
  | done (a : α)
  | ask (q : I.Question) (next : I.Answer q → Program I α)

namespace Program

variable {I J : Interface} {α β σ : Type}

/-- A program followed by another that depends on its result. -/
def bind : Program I α → (α → Program I β) → Program I β
  | .done a, k => k a
  | .ask q next, k => .ask q fun answer => (next answer).bind k

instance : Monad (Program I) where
  pure := .done
  bind := bind

theorem bind_done (p : Program I α) : p.bind .done = p := by
  induction p with
  | done a => rfl
  | ask q next ih => exact congrArg (Program.ask q) (funext ih)

theorem bind_assoc {γ : Type} (p : Program I α) (f : α → Program I β) (g : β → Program I γ) :
    (p.bind f).bind g = p.bind fun a => (f a).bind g := by
  induction p with
  | done a => rfl
  | ask q next ih => exact congrArg (Program.ask q) (funext ih)

instance : LawfulMonad (Program I) :=
  LawfulMonad.mk' _ bind_done (fun _ _ => rfl) bind_assoc

/-- The program that asks one question and is done with the answer. -/
def question (q : I.Question) : Program I (I.Answer q) := .ask q .done

/-- The result of a program, and the state of the party that answered it. -/
def run (answer : (q : I.Question) → σ → I.Answer q × σ) : Program I α → σ → α × σ
  | .done a, s => (a, s)
  | .ask q next, s =>
      let r := answer q s
      (next r.1).run answer r.2

/-- A program in which every question is put as a program over another interface. -/
def expand (put : (q : I.Question) → Program J (I.Answer q)) : Program I α → Program J α
  | .done a => .done a
  | .ask q next => (put q).bind fun answer => (next answer).expand put

/-! ## Running a sequence -/

theorem run_bind (answer : (q : I.Question) → σ → I.Answer q × σ) (p : Program I α)
    (k : α → Program I β) (s : σ) :
    (p.bind k).run answer s = (k (p.run answer s).1).run answer (p.run answer s).2 := by
  induction p generalizing s with
  | done a => rfl
  | ask q next ih => exact ih _ _

@[simp] theorem run_pure (answer : (q : I.Question) → σ → I.Answer q × σ) (a : α) (s : σ) :
    (pure a : Program I α).run answer s = (a, s) := rfl

/-- A program in two parts runs the second on the result and the state of the first. -/
@[simp] theorem run_then (answer : (q : I.Question) → σ → I.Answer q × σ) (p : Program I α)
    (k : α → Program I β) (s : σ) :
    (p >>= k).run answer s = (k (p.run answer s).1).run answer (p.run answer s).2 :=
  run_bind answer p k s

@[simp] theorem run_question (answer : (q : I.Question) → σ → I.Answer q × σ) (q : I.Question)
    (s : σ) : (question q).run answer s = answer q s := rfl

/-- Putting questions another way is answering them by running what puts them. -/
theorem run_expand (put : (q : I.Question) → Program J (I.Answer q))
    (answer : (q : J.Question) → σ → J.Answer q × σ) (p : Program I α) (s : σ) :
    (p.expand put).run answer s = p.run (fun q s => (put q).run answer s) s := by
  induction p generalizing s with
  | done a => rfl
  | ask q next ih => simp only [expand, run_bind, run]; exact ih _ _

@[simp] theorem expand_then (put : (q : I.Question) → Program J (I.Answer q)) (p : Program I α)
    (k : α → Program I β) :
    (p >>= k).expand put = p.expand put >>= fun a => (k a).expand put := by
  induction p with
  | done a => rfl
  | ask q next ih =>
      show (put q >>= fun answer => (next answer >>= k).expand put) =
        (put q >>= fun answer => (next answer).expand put) >>= fun a => (k a).expand put
      rw [LawfulMonad.bind_assoc]
      exact congrArg _ (funext ih)

@[simp] theorem expand_question (put : (q : I.Question) → Program J (I.Answer q))
    (q : I.Question) : (question q).expand put = put q := bind_done (put q)

end Program

end TemplateCache
