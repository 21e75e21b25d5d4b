import TemplateCache.Proofs.Compiler.Course

/-!
# The default directory that is kept

Among all that a call does only finding its destination looks at the default directory that is kept,
or changes it. What this comes to is told here once, in `run_defaultDir`: a directory that is kept
is answered, and one that is found is answered and kept. So a machine that keeps what an earlier
call left finds the same destination without a question to the files (`run_destination_again`), and
whatever a call does afterwards keeps it (`held_template`).
-/

namespace TemplateCache

open FileSystem

namespace Compiler

open CompileProgram (run_onFiles run_ask)

/-! ## Asking for the default directory -/

/-- What a call for the default directory asks, all told. -/
theorem defaultDir_eq (c : Compiler) : c.defaultDir = (do
    match ← CompileProgram.ask .held with
    | some dir => return .ok dir
    | none =>
        match ← CompileProgram.onFiles c.root.resolve with
        | .error e => return .error (.config e)
        | .ok root =>
            CompileProgram.ask (.tell (.foundDefault (root.join c.subdir)))
            return .ok (← CompileProgram.ask (.publish (root.join c.subdir)))) := by
  unfold Compiler.defaultDir DefaultDir.get DefaultDir.ask
  rw [Program.expand_then, Program.expand_question, bind_assoc]
  refine congrArg _ (funext fun held => ?_)
  cases held with
  | some dir => rfl
  | none =>
      dsimp only
      rw [Program.expand_then, Program.expand_question, bind_assoc]
      refine congrArg _ (funext fun root => ?_)
      cases root with
      | error e => rfl
      | ok root => rfl

/-- A directory that is kept is answered. One that is found is told of, kept and answered, and a
failure to find it is not kept. -/
theorem run_defaultDir (c : Compiler) (m : Machine) :
    c.defaultDir.run Machine.answer m = match m.held with
      | some dir => (.ok dir, m)
      | none => match (m.system.runFiles c.root.resolve).1 with
        | .ok root => (.ok (root.join c.subdir),
            ⟨m.system, some (root.join c.subdir), .foundDefault (root.join c.subdir) :: m.events⟩)
        | .error e => (.error (.config e), m) := by
  rw [defaultDir_eq, Program.run_then, run_ask]
  dsimp only [Machine.answer]
  cases hheld : m.held with
  | some dir => rfl
  | none =>
      dsimp only
      rw [Program.run_then, run_onFiles]
      dsimp only
      rw [runFiles_resolve]
      cases (m.system.runFiles c.root.resolve).1 with
      | error e => rfl
      | ok root =>
          dsimp only
          rw [Program.run_then, run_ask, Program.run_then, run_ask]
          simp only [Machine.answer, hheld]
          rfl

/-- Where a call goes that has no destination of its own. -/
theorem destinationFrom_eq {c : Compiler} {o : Options} (h : o.override? = none) (m : Machine) :
    c.destinationFrom o m = match m.held with
      | some dir => .ok dir
      | none => match (m.system.runFiles c.root.resolve).1 with
        | .ok root => .ok (root.join c.subdir)
        | .error e => .error (.config e) := by
  unfold destinationFrom
  rw [destination_of_default c h, run_defaultDir]
  cases m.held with
  | some dir => rfl
  | none => cases (m.system.runFiles c.root.resolve).1 <;> rfl

/-! ## Keeping it -/

/-- A call for the default directory that succeeds leaves its answer to be kept, and one that fails
leaves everything as it was. -/
theorem held_defaultDir (c : Compiler) (m : Machine) :
    (∃ dir, (c.defaultDir.run Machine.answer m).1 = .ok dir ∧
      (c.defaultDir.run Machine.answer m).2.held = some dir) ∨
    (∃ e, (c.defaultDir.run Machine.answer m).1 = .error e ∧
      m.held = none ∧ (c.defaultDir.run Machine.answer m).2 = m) := by
  rw [run_defaultDir]
  cases hheld : m.held with
  | some dir => exact .inl ⟨dir, rfl, hheld⟩
  | none =>
      cases (m.system.runFiles c.root.resolve).1 with
      | ok root => exact .inl ⟨_, rfl, rfl⟩
      | error e => exact .inr ⟨_, rfl, rfl, rfl⟩

/-- Finding a destination changes nothing in what is kept, or it keeps the default directory that it
finds, where none was kept before. -/
theorem held_directed (c : Compiler) (o : Options) (m : Machine) :
    (c.directed o m).held = m.held ∨ o.override? = none ∧ m.held = none ∧
      ∃ dir, c.destinationFrom o m = .ok dir ∧ (c.directed o m).held = some dir := by
  unfold directed destinationFrom
  cases hover : o.override? with
  | some dir =>
      rw [destination_of_override c hover]
      exact .inl rfl
  | none =>
      rw [destination_of_default c hover]
      obtain ⟨dir, hdir, hkept⟩ | ⟨e, -, -, hsame⟩ := c.held_defaultDir m
      · cases hheld : m.held with
        | none => exact .inr ⟨rfl, rfl, dir, hdir, hkept⟩
        | some before =>
            rw [run_defaultDir, hheld]
            exact .inl hheld
      · exact .inl (by rw [hsame])

/-- A machine that keeps what finding a destination left finds the same one again, and is not
changed by it. -/
theorem run_destination_again {c : Compiler} {o : Options} {m : Machine} (m' : Machine) {d : Path}
    (hd : c.destinationFrom o m = .ok d)
    (hheld : m'.held = ((c.destination o).run Machine.answer m).2.held) :
    (c.destination o).run Machine.answer m' = (.ok d, m') := by
  unfold destinationFrom at hd
  cases hover : o.override? with
  | some dir =>
      rw [destination_of_override c hover] at hd ⊢
      exact congrArg (·, m') hd
  | none =>
      rw [destination_of_default c hover] at hd hheld ⊢
      obtain ⟨dir, hdir, hkept⟩ | ⟨e, he, -⟩ := c.held_defaultDir m
      · cases hdir.symm.trans hd
        rw [run_defaultDir, hheld, hkept]
      · cases he.symm.trans hd

/-- What leaves the default directory alone keeps it. -/
theorem LeavesDefault.held_eq {α : Type} {p : CompileProgram α} (h : LeavesDefault p)
    (m : Machine) : (p.run Machine.answer m).2.held = m.held :=
  congrArg (fun ran => ran.2.held) (h m m.held)

/-- After finding its destination a call keeps the default directory; a call that fails before has
not asked for it. -/
theorem held_template (c : Compiler) (source : Path) (o : Options) (m : Machine) :
    ((c.template source o).run Machine.answer m).2.held =
        ((c.destination o).run Machine.answer m).2.held ∨
      ((c.template source o).run Machine.answer m).2.held = m.held ∧
        ∃ e, ((c.template source o).run Machine.answer m).1 = .error e := by
  have hran := c.template_ran source o m
  generalize (c.template source o).run Machine.answer m = ran at hran ⊢
  obtain ⟨result, after⟩ := ran
  cases hran with
  | unread _ => exact .inr ⟨rfl, _, rfl⟩
  | unresolved _ _ => exact .inr ⟨rfl, _, rfl⟩
  | undirected _ _ _ => exact .inl rfl
  | unopened _ _ _ _ => exact .inl rfl
  | hit _ _ => exact .inl rfl
  | rejected _ _ _ => exact .inl rfl
  | unwritten _ _ _ _ => exact .inl rfl
  | made _ _ _ _ => exact .inl ((LeavesDefault.pruneAfter _ _ _).held_eq _)

/-- A call that succeeds keeps what finding its destination left. -/
theorem held_template_of_ok {c : Compiler} {source : Path} {o : Options} {m : Machine} {p : Path}
    (h : ((c.template source o).run Machine.answer m).1 = .ok p) :
    ((c.template source o).run Machine.answer m).2.held =
      ((c.destination o).run Machine.answer m).2.held := by
  obtain hheld | ⟨-, e, he⟩ := held_template c source o m
  · exact hheld
  · cases he.symm.trans h

/-! ## Finding the artifact -/

/-- A call whose destination is known, whose store is open and whose artifact is there does nothing
but tell so. -/
theorem run_template_of_hit {c : Compiler} {source : Path} {o : Options} {m : Machine}
    {contents : Bytes} {canonical d : Path} {store : Store}
    (hcontents : m.system.contents source = .ok contents)
    (hcanonical : m.system.canonical source = .ok canonical)
    (hdestination : (c.destination o).run Machine.answer m = (.ok d, m))
    (hopen : m.system.runFiles (Store.openAt d) = (.ok store, m.system))
    (hthere : (m.system.runFiles
      (store.contains (c.artifactName o canonical contents))).1 = true) :
    (c.template source o).run Machine.answer m =
      (.ok (store.artifactPath (c.artifactName o canonical contents)), ⟨m.system, m.held,
        .hit canonical (store.artifactPath (c.artifactName o canonical contents)) :: m.events⟩)
    := by
  unfold template
  rw [Program.run_then, run_ask]
  dsimp only [Machine.answer, answer]
  rw [hcontents]
  dsimp only
  rw [Program.run_then, run_ask]
  dsimp only [Machine.answer, answer]
  rw [hcanonical]
  dsimp only
  rw [Program.run_then, hdestination]
  dsimp only
  unfold compileInto
  rw [Program.run_then, run_onFiles, hopen]
  dsimp only
  rw [Program.run_then, run_onFiles]
  dsimp only
  rw [hthere, Store.contains_system]
  rfl

end Compiler

end TemplateCache
