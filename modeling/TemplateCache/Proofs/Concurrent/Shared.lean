import TemplateCache.Proofs.Compiler.Course
import TemplateCache.Proofs.Program.Turns

/-!
# Callers on one machine

Callers that overlap share the files and the default directory that is kept; each has events of
its own. An answer to one of them is what the machine would answer to it alone, and a caller that
runs without interruption runs as on a machine of its own: `Shared.run_answer`.

What is said about programs on files holds for them as parts of a call: `Pact.Keeps.onFiles`.
-/

namespace TemplateCache

open CompileProgram (ask onFiles)

/-- The files and the default directory that some callers share, and the events of each, the last
first. -/
structure Shared (ι : Type) where
  system : FileSystem
  held : Option Path
  events : ι → List Event

namespace Shared

variable {ι : Type} [DecidableEq ι]

/-- What a caller sees of it. -/
def machine (s : Shared ι) (i : ι) : Machine := ⟨s.system, s.held, s.events i⟩

/-- What a caller leaves. -/
def leave (s : Shared ι) (i : ι) (m : Machine) : Shared ι :=
  ⟨m.system, m.held, Function.update s.events i m.events⟩

/-- The answer to a question of a caller. -/
def answer (i : ι) (q : CompileQuestion) (s : Shared ι) : q.Answer × Shared ι :=
  let r := Machine.answer q (s.machine i)
  (r.1, s.leave i r.2)

@[simp] theorem leave_machine (s : Shared ι) (i : ι) : s.leave i (s.machine i) = s := by
  unfold leave machine
  dsimp only
  rw [Function.update_eq_self]

@[simp] theorem machine_leave (s : Shared ι) (i : ι) (m : Machine) :
    (s.leave i m).machine i = m := by
  unfold leave machine
  dsimp only
  rw [Function.update_self]

@[simp] theorem leave_leave (s : Shared ι) (i : ι) (m m' : Machine) :
    (s.leave i m).leave i m' = s.leave i m' := by
  unfold leave
  dsimp only
  rw [Function.update_idem]

/-- A caller that is not interrupted might as well be alone. -/
theorem run_answer {α : Type} (i : ι) (p : CompileProgram α) (s : Shared ι) :
    p.run (answer i) s = ((p.run Machine.answer (s.machine i)).1,
      s.leave i (p.run Machine.answer (s.machine i)).2) := by
  induction p generalizing s with
  | done a => simp [Program.run]
  | ask q next ih =>
      simp only [Program.run]
      rw [ih]
      simp [answer]

/-- Where a caller without others comes to. -/
theorem turns_alone {α : Type} (outside : Shared Unit → Shared Unit → Prop) (p : CompileProgram α)
    (start : FileSystem) (held : Option Path) :
    Program.Turns answer outside (fun _ => p) ⟨start, held, fun _ => []⟩
      (fun _ => .done (p.run Machine.answer ⟨start, held, []⟩).1)
      ((⟨start, held, fun _ => []⟩ : Shared Unit).leave ()
        (p.run Machine.answer ⟨start, held, []⟩).2) := by
  have hturns : Program.Turns answer outside (fun _ : Unit => p) ⟨start, held, fun _ => []⟩ _ _ :=
    .finish ()
  rw [run_answer] at hturns
  have hpool : ∀ q : CompileProgram α, Function.update (fun _ => p) () q = fun _ => q :=
    fun q => funext fun _ => Function.update_self ..
  rwa [hpool] at hturns

theorem answer_file (i : ι) (r : Request) (s : Shared ι) :
    answer i (.file r) s =
      ((FileSystem.answer r s.system).1,
        { s with system := (FileSystem.answer r s.system).2 }) := by
  unfold answer leave machine Machine.answer
  dsimp only
  rw [Function.update_eq_self]

theorem answer_held (i : ι) (s : Shared ι) : answer i .held s = (s.held, s) := by
  unfold answer leave machine Machine.answer
  dsimp only
  rw [Function.update_eq_self]

theorem answer_publish (i : ι) (dir : Path) (s : Shared ι) :
    answer i (.publish dir) s = (s.held.getD dir, { s with held := some (s.held.getD dir) }) := by
  unfold answer leave machine Machine.answer
  dsimp only
  rw [Function.update_eq_self]

theorem answer_tell (i : ι) (e : Event) (s : Shared ι) :
    answer i (.tell e) s =
      ((), { s with events := Function.update s.events i (e :: s.events i) }) := rfl

/-- Requests of a caller, by themselves. -/
def onSystem (i : ι) (r : Request) (s : Shared ι) : r.Answer × Shared ι := answer i (.file r) s

end Shared

namespace Pact

variable {ι α β W : Type} [DecidableEq ι] {pact : Pact ι (Shared ι) W} {i : ι}
  {P : α → W → Prop} {Q : β → W → Prop} {w : W}

namespace Keeps

/-- A program on files keeps a pact as a part of a call if it does by itself. -/
theorem onFiles {p : FileProgram α}
    (h : pact.Keeps (I := FileInterface) Shared.onSystem i P p w) :
    pact.Keeps Shared.answer i P (CompileProgram.onFiles p) w := by
  induction p generalizing w with
  | done a => exact h
  | ask r next ih =>
      intro w' hlater
      obtain ⟨w'', hstate, hstep, hrest⟩ := h w' hlater
      exact ⟨w'', hstate, hstep, ih _ hrest⟩

/-- A request that changes nothing. -/
theorem look_file {r : Request} {k : r.Answer → FileProgram β}
    (hstill : ∀ s, (FileSystem.answer r s).2 = s)
    (h : ∀ w', pact.Later i w w' → pact.Keeps (I := FileInterface) Shared.onSystem i Q
      (k (FileSystem.answer r (pact.state w').system).1) w') :
    pact.Keeps (I := FileInterface) Shared.onSystem i Q (FileProgram.ask r >>= k) w := by
  refine Keeps.look (fun s => ?_) h
  show (Shared.answer i (.file r) s).2 = s
  rw [Shared.answer_file, hstill]

theorem look_call {r : Request} {k : r.Answer → CompileProgram β}
    (hstill : ∀ s, (FileSystem.answer r s).2 = s)
    (h : ∀ w', pact.Later i w w' → pact.Keeps (I := CompileInterface) Shared.answer i Q
      (k (FileSystem.answer r (pact.state w').system).1) w') :
    pact.Keeps (I := CompileInterface) Shared.answer i Q
      (CompileProgram.ask (.file r) >>= k) w := by
  refine Keeps.look (fun s => ?_) h
  rw [Shared.answer_file, hstill]

/-- A request that changes files. -/
theorem change_file {r : Request} {k : r.Answer → FileProgram β}
    (h : ∀ w', pact.Later i w w' → ∃ w'',
      pact.state w'' =
        { pact.state w' with system := (FileSystem.answer r (pact.state w').system).2 } ∧
      pact.Step i w' w'' ∧ pact.Keeps (I := FileInterface) Shared.onSystem i Q
        (k (FileSystem.answer r (pact.state w').system).1) w'') :
    pact.Keeps (I := FileInterface) Shared.onSystem i Q (FileProgram.ask r >>= k) w := by
  refine Keeps.ask fun w' hlater => ?_
  obtain ⟨w'', hstate, hstep, hrest⟩ := h w' hlater
  refine ⟨w'', ?_, hstep, hrest⟩
  show pact.state w'' = (Shared.answer i (.file r) (pact.state w')).2
  rw [hstate, Shared.answer_file]

end Keeps

end Pact

end TemplateCache
