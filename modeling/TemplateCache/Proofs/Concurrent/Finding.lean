import TemplateCache.Proofs.Compiler.DefaultDir
import TemplateCache.Proofs.Concurrent.Shared

/-!
# How callers find their directory

Where a call goes depends on its options, on the working directory, on one environment variable and
on the default directory that is kept. A pact is *steady* if nobody may change the second and third,
and if nobody may keep another default directory than the one that a call alone would have found.
Then all callers find the same directory, or the same error, whoever of them is the first to find it.
Main statements: `Steady.keeps_destination` and `Steady.keeps_absolute`.
-/

namespace TemplateCache

open FileSystem

namespace Pact

variable {ι α W : Type} [DecidableEq ι]

/-- What one party knows survives finding the directory, which comes out as on a machine alone. -/
structure Steady (pact : Pact ι (Shared ι) W) (c : Compiler) (o : Options) (m : Machine) (i : ι)
    (Known : W → Prop) : Prop where
  workingDir : ∀ {w}, pact.Fine w → (pact.state w).system.workingDir = m.system.workingDir
  resources : ∀ {w}, pact.Fine w → (pact.state w).system.resources = m.system.resources
  held : ∀ {w}, pact.Fine w → (pact.state w).held = m.held ∨
    ∃ dest, c.destinationFrom o m = .ok dest ∧ (pact.state w).held = some dest
  later : ∀ {w w'}, Known w → pact.Later i w w' → Known w'
  tell : ∀ {w} dest, pact.Fine w → Known w → ∃ w',
    pact.state w' = (Shared.answer i (.tell (.foundDefault dest)) (pact.state w)).2 ∧
      pact.Step i w w' ∧ Known w'
  publish : ∀ {w} dest, c.destinationFrom o m = .ok dest → pact.Fine w → Known w → ∃ w',
    pact.state w' = { pact.state w with held := some dest } ∧ pact.Step i w w' ∧ Known w'

namespace Steady

variable {pact : Pact ι (Shared ι) W} {c : Compiler} {o : Options} {m : Machine} {i : ι}
  {Known : W → Prop} {w : W}

theorem workingDirectory (h : pact.Steady c o m i Known) (hw : pact.Fine w) :
    (pact.state w).system.workingDirectory = m.system.workingDirectory := by
  unfold FileSystem.workingDirectory
  rw [h.workingDir hw]

/-! ## Roots and absolute forms -/

theorem keeps_absolute (h : pact.Steady c o m i Known) (hknown : Known w) (dest : Path) :
    pact.Keeps (I := FileInterface) Shared.onSystem i
      (fun result w => result = (m.system.runFiles (Store.absolute dest)).1 ∧ Known w)
      (Store.absolute dest) w := by
  unfold Store.absolute
  split
  · exact ⟨rfl, hknown⟩
  · split
    · exact ⟨rfl, hknown⟩
    · refine Keeps.look_file (fun s => rfl) fun w' hlater => ?_
      have hknown' := h.later hknown hlater
      rw [runFiles_then, runFiles_ask]
      dsimp only [FileSystem.answer]
      rw [h.workingDirectory hlater.fine]
      cases m.system.workingDirectory with
      | error e => exact ⟨rfl, hknown'⟩
      | ok workingDir => exact ⟨rfl, hknown'⟩

theorem keeps_underWorkingDir (h : pact.Steady c o m i Known) (hknown : Known w) :
    pact.Keeps (I := FileInterface) Shared.onSystem i
      (fun result w => result = (m.system.runFiles Root.underWorkingDir).1 ∧ Known w)
      Root.underWorkingDir w := by
  unfold Root.underWorkingDir
  refine Keeps.look_file (fun s => rfl) fun w' hlater => ?_
  have hknown' := h.later hknown hlater
  rw [runFiles_then, runFiles_ask]
  dsimp only [FileSystem.answer]
  rw [h.workingDirectory hlater.fine]
  cases m.system.workingDirectory with
  | error e => exact ⟨rfl, hknown'⟩
  | ok dir => exact ⟨rfl, hknown'⟩

/-- The root is found in what nobody changes. -/
theorem keeps_resolve (h : pact.Steady c o m i Known) (hknown : Known w) (root : Root) :
    pact.Keeps (I := FileInterface) Shared.onSystem i
      (fun result w => result = (m.system.runFiles root.resolve).1 ∧ Known w) root.resolve w := by
  cases root with
  | fixed path => exact ⟨rfl, hknown⟩
  | environment =>
      unfold Root.resolve
      refine Keeps.look_file (fun s => rfl) fun w' hlater => ?_
      have hknown' := h.later hknown hlater
      rw [runFiles_then, runFiles_ask]
      dsimp only [FileSystem.answer]
      rw [h.resources hlater.fine]
      rcases m.system.resources with _ | _ | ⟨b, rest⟩
      · exact h.keeps_underWorkingDir hknown'
      · exact h.keeps_underWorkingDir hknown'
      · exact ⟨rfl, hknown'⟩

/-! ## The destination -/

/-- Whatever default directory is kept is the one that a call alone would find. -/
theorem destination_of_held (h : pact.Steady c o m i Known) (hw : pact.Fine w)
    (hover : o.override? = none) {dir : Path} (hdir : (pact.state w).held = some dir) :
    c.destinationFrom o m = .ok dir := by
  rcases h.held hw with hsame | ⟨dest, hdest, hkept⟩
  · rw [Compiler.destinationFrom_eq hover, ← hsame, hdir]
  · rw [hdest, Option.some.inj (hkept.symm.trans hdir)]

/-- None was kept at first if none is kept now. -/
theorem held_eq_none (h : pact.Steady c o m i Known) (hw : pact.Fine w)
    (hnone : (pact.state w).held = none) : m.held = none := by
  rcases h.held hw with hsame | ⟨dest, -, hkept⟩
  · rw [← hsame, hnone]
  · rw [hnone] at hkept
    cases hkept

/-- Every caller finds the same directory, or is given it by another. -/
theorem keeps_destination (h : pact.Steady c o m i Known) (hknown : Known w) :
    pact.Keeps (I := CompileInterface) Shared.answer i
      (fun result w => result = c.destinationFrom o m ∧ Known w) (c.destination o) w := by
  cases hover : o.override? with
  | some dir =>
      unfold Compiler.destinationFrom
      rw [Compiler.destination_of_override _ hover]
      exact ⟨rfl, hknown⟩
  | none =>
      rw [Compiler.destination_of_default _ hover, Compiler.defaultDir_eq]
      refine Keeps.look (fun s => by rw [Shared.answer_held]) fun w' hlater => ?_
      have hknown' := h.later hknown hlater
      rw [Shared.answer_held]
      cases hheld : (pact.state w').held with
      | some dir => exact ⟨(h.destination_of_held hlater.fine hover hheld).symm, hknown'⟩
      | none =>
          have hdest := Compiler.destinationFrom_eq (c := c) hover m
          rw [h.held_eq_none hlater.fine hheld] at hdest
          refine (h.keeps_resolve hknown' c.root).onFiles.bind hlater.fine ?_
          rintro root w₁ hw₁ ⟨rfl, hknown₁⟩
          cases hroot : (m.system.runFiles c.root.resolve).1 with
          | error e =>
              rw [hroot] at hdest
              exact ⟨hdest.symm, hknown₁⟩
          | ok root =>
              rw [hroot] at hdest
              refine Keeps.ask fun w₂ hlater₂ => ?_
              obtain ⟨w₃, hstate₃, hstep₃, hknown₃⟩ :=
                h.tell (root.join c.subdir) hlater₂.fine (h.later hknown₁ hlater₂)
              refine ⟨w₃, hstate₃, hstep₃, Keeps.ask fun w₄ hlater₄ => ?_⟩
              obtain ⟨w₅, hstate₅, hstep₅, hknown₅⟩ :=
                h.publish _ hdest hlater₄.fine (h.later hknown₃ hlater₄)
              -- another caller may have published in between, and then the same directory
              have hkept : (pact.state w₄).held.getD (root.join c.subdir) = root.join c.subdir := by
                cases hheld₄ : (pact.state w₄).held with
                | none => rfl
                | some dir =>
                    exact Except.ok.inj
                      ((h.destination_of_held hlater₄.fine hover hheld₄).symm.trans hdest)
              rw [Shared.answer_publish, hkept]
              exact ⟨w₅, hstate₅, hstep₅, hdest.symm, hknown₅⟩

end Steady

end Pact

end TemplateCache
