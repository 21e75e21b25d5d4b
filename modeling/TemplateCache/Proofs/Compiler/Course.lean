import TemplateCache.Proofs.Store.Pruning
import TemplateCache.Compiler

/-!
# The course of a call

A call reads its source, finds out where the artifact goes, opens the store there, and then either
finds the artifact or makes it. There are eight ways in which this can end, and `Compiler.Ran` lists
them with the result of the call and the machine after it. What is to be said about single calls is
read off the list (`template_ran`), without the program of `Compiler.template`.

Most of it does not depend on the default directory that is kept, nor on the events, and
`Compiler.Course` leaves these out. Main statement: `template_course`. A call with a destination of
its own never asks for the default directory: `LeavesDefault.template`.
-/

namespace TemplateCache

open FileSystem
open CompileProgram (ask onFiles)

/-- What every answer keeps, a whole program keeps. -/
theorem Program.run_keeps {I : Interface} {α σ : Type}
    {answer : (q : I.Question) → σ → I.Answer q × σ} {P : σ → Prop}
    (hkeep : ∀ q s, P s → P (answer q s).2) (p : Program I α) {s : σ} (hs : P s) :
    P (p.run answer s).2 := by
  induction p generalizing s with
  | done a => exact hs
  | ask q next ih => exact ih _ (hkeep q s hs)

namespace CompileProgram

/-! ## Running parts of a compilation -/

/-- A program on files sees and changes the machine's files only. -/
theorem run_onFiles {α : Type} (p : FileProgram α) (m : Machine) :
    (onFiles p).run Machine.answer m =
      ((m.system.runFiles p).1, { m with system := (m.system.runFiles p).2 }) := by
  unfold onFiles runFiles
  rw [Program.run_expand]
  -- every request is answered on the files and put back into the machine, one after the other
  induction p generalizing m with
  | done a => rfl
  | ask q next ih =>
      unfold Program.run
      exact ih _ _

theorem run_ask (q : CompileQuestion) (m : Machine) :
    (ask q).run Machine.answer m = m.answer q := rfl

end CompileProgram

namespace Compiler

open CompileProgram (run_onFiles run_ask)

/-! ## The destination -/

/-- Where the artifact of a call goes, as far as that is known before anything is made. -/
def destinationFrom (c : Compiler) (o : Options) (m : Machine) : Except CompileError Path :=
  ((c.destination o).run Machine.answer m).1

theorem runFiles_resolve (root : Root) (s : FileSystem) : (s.runFiles root.resolve).2 = s := by
  cases root with
  | fixed path => rfl
  | environment =>
      unfold Root.resolve
      rw [runFiles_then, runFiles_ask]
      dsimp only [answer]
      split
      · rfl
      · unfold Root.underWorkingDir
        rw [runFiles_then, runFiles_ask]
        dsimp only [answer]
        cases s.workingDirectory <;> rfl

/-- No question for the default directory changes a file. -/
theorem putDirQuestion_system (root : Root) (q : DirQuestion) (m : Machine) :
    ((putDirQuestion root q).run Machine.answer m).2.system = m.system := by
  cases q with
  | held => rfl
  | resolve =>
      unfold putDirQuestion
      rw [run_onFiles]
      exact runFiles_resolve root m.system
  | announce dir => rfl
  | publish dir => rfl

/-- A call with a destination of its own goes there. -/
theorem destination_of_override (c : Compiler) {o : Options} {dir : Path}
    (h : o.override? = some dir) : c.destination o = Pure.pure (.ok dir) := by
  unfold destination
  rw [h]

/-- Any other call goes to the default directory. -/
theorem destination_of_default (c : Compiler) {o : Options} (h : o.override? = none) :
    c.destination o = c.defaultDir := by
  unfold destination
  rw [h]

/-- Finding the destination changes no file. -/
theorem destination_system (c : Compiler) (o : Options) (m : Machine) :
    ((c.destination o).run Machine.answer m).2.system = m.system := by
  unfold destination
  split
  · rfl
  · unfold defaultDir
    rw [Program.run_then, Program.run_expand]
    -- one question for the default directory is one step here
    have hkept := Program.run_keeps (P := fun s => s.system = m.system)
      (fun q s hs => (putDirQuestion_system c.root q s).trans hs) (DefaultDir.get c.subdir)
      (s := m) rfl
    split <;> exact hkept

/-! ## The eight ends of a call -/

/-- What a call has found out when it comes to its store: the contents of the source, its canonical
path, the store, and the system in which the store is open. -/
structure Arrival (source : Path) (dir : Except CompileError Path) (s : FileSystem)
    (contents : Bytes) (canonical : Path) (store : Store) (opened : FileSystem) : Prop where
  contents : s.contents source = .ok contents
  canonical : s.canonical source = .ok canonical
  opened : ∃ d, dir = .ok d ∧ s.runFiles (Store.openAt d) = (.ok store, opened)

/-- The files after pruning with the time of the source, if that is known. -/
def prunedWith (store : Store) (n : ArtifactName) (canonical : Path) (s : FileSystem) :
    FileSystem :=
  match s.status canonical with
  | .ok status => (s.runFiles (store.prune n status.modified)).2
  | .error _ => s

/-- The ways in which a call can end, with its result and the files after it. -/
inductive Course (c : Compiler) (source : Path) (o : Options) (dir : Except CompileError Path)
    (s : FileSystem) : Except CompileError Path → FileSystem → Prop where
  | unread {e : SystemError} :
      s.contents source = .error e → Course c source o dir s (.error (.unreadable source e)) s
  | unresolved {e : SystemError} {contents : Bytes} :
      s.contents source = .ok contents → s.canonical source = .error e →
      Course c source o dir s (.error (.unreadable source e)) s
  | undirected {e : CompileError} {contents : Bytes} {canonical : Path} :
      s.contents source = .ok contents → s.canonical source = .ok canonical →
      dir = .error e → Course c source o dir s (.error e) s
  | unopened {e : CompileError} {contents : Bytes} {canonical d : Path} {s' : FileSystem} :
      s.contents source = .ok contents → s.canonical source = .ok canonical →
      dir = .ok d → s.runFiles (Store.openAt d) = (.error e, s') →
      Course c source o dir s (.error e) s'
  | hit {contents : Bytes} {canonical : Path} {store : Store} {opened : FileSystem} :
      Arrival source dir s contents canonical store opened →
      (opened.runFiles (store.contains (c.artifactName o canonical contents))).1 = true →
      Course c source o dir s (.ok (store.artifactPath (c.artifactName o canonical contents)))
        opened
  | rejected {contents : Bytes} {canonical : Path} {store : Store} {opened : FileSystem}
      {e : CompileError} :
      Arrival source dir s contents canonical store opened →
      (opened.runFiles (store.contains (c.artifactName o canonical contents))).1 = false →
      c.transform.apply contents o = .error e → Course c source o dir s (.error e) opened
  | unwritten {contents out : Bytes} {canonical : Path} {store : Store}
      {opened s' : FileSystem} {e : CompileError} :
      Arrival source dir s contents canonical store opened →
      (opened.runFiles (store.contains (c.artifactName o canonical contents))).1 = false →
      c.transform.apply contents o = .ok out →
      opened.runFiles (store.write (c.artifactName o canonical contents) out) = (.error e, s') →
      Course c source o dir s (.error e) s'
  | made {contents out : Bytes} {canonical p : Path} {store : Store}
      {opened written : FileSystem} :
      Arrival source dir s contents canonical store opened →
      (opened.runFiles (store.contains (c.artifactName o canonical contents))).1 = false →
      c.transform.apply contents o = .ok out →
      opened.runFiles (store.write (c.artifactName o canonical contents) out) =
        (.ok p, written) →
      Course c source o dir s (.ok p)
        (prunedWith store (c.artifactName o canonical contents) canonical written)

/-! ## Running a call -/

theorem run_pruneAfter (store : Store) (n : ArtifactName) (canonical : Path) (m : Machine) :
    ((pruneAfter store n canonical).run Machine.answer m).2.system =
      prunedWith store n canonical m.system := by
  unfold pruneAfter prunedWith
  rw [Program.run_then, run_ask]
  dsimp only [Machine.answer, answer]
  cases m.system.status canonical with
  | error e => rfl
  | ok status =>
      dsimp only
      rw [Program.run_then, run_onFiles]
      dsimp only
      cases (m.system.runFiles (store.prune n status.modified)).1 with
      | error e => rfl
      | ok removed => cases removed <;> rfl

/-- The machine when a call has found out where its artifact goes. -/
def directed (c : Compiler) (o : Options) (m : Machine) : Machine :=
  ((c.destination o).run Machine.answer m).2

/-- The ways in which a call can end on a machine, with its result and the machine after it. What
is told after the destination is known comes on top of what was told on the way to it. -/
inductive Ran (c : Compiler) (source : Path) (o : Options) (m : Machine) :
    Except CompileError Path → Machine → Prop where
  | unread {e : SystemError} :
      m.system.contents source = .error e → Ran c source o m (.error (.unreadable source e)) m
  | unresolved {e : SystemError} {contents : Bytes} :
      m.system.contents source = .ok contents → m.system.canonical source = .error e →
      Ran c source o m (.error (.unreadable source e)) m
  | undirected {e : CompileError} {contents : Bytes} {canonical : Path} :
      m.system.contents source = .ok contents → m.system.canonical source = .ok canonical →
      c.destinationFrom o m = .error e → Ran c source o m (.error e) (c.directed o m)
  | unopened {e : CompileError} {contents : Bytes} {canonical d : Path} {s' : FileSystem} :
      m.system.contents source = .ok contents → m.system.canonical source = .ok canonical →
      c.destinationFrom o m = .ok d → m.system.runFiles (Store.openAt d) = (.error e, s') →
      Ran c source o m (.error e) ⟨s', (c.directed o m).held, (c.directed o m).events⟩
  | hit {contents : Bytes} {canonical : Path} {store : Store} {opened : FileSystem} :
      Arrival source (c.destinationFrom o m) m.system contents canonical store opened →
      (opened.runFiles (store.contains (c.artifactName o canonical contents))).1 = true →
      Ran c source o m (.ok (store.artifactPath (c.artifactName o canonical contents)))
        ⟨opened, (c.directed o m).held,
          .hit canonical (store.artifactPath (c.artifactName o canonical contents)) ::
            (c.directed o m).events⟩
  | rejected {contents : Bytes} {canonical : Path} {store : Store} {opened : FileSystem}
      {e : CompileError} :
      Arrival source (c.destinationFrom o m) m.system contents canonical store opened →
      (opened.runFiles (store.contains (c.artifactName o canonical contents))).1 = false →
      c.transform.apply contents o = .error e →
      Ran c source o m (.error e) ⟨opened, (c.directed o m).held,
        .miss canonical store.dir :: (c.directed o m).events⟩
  | unwritten {contents out : Bytes} {canonical : Path} {store : Store}
      {opened s' : FileSystem} {e : CompileError} :
      Arrival source (c.destinationFrom o m) m.system contents canonical store opened →
      (opened.runFiles (store.contains (c.artifactName o canonical contents))).1 = false →
      c.transform.apply contents o = .ok out →
      opened.runFiles (store.write (c.artifactName o canonical contents) out) = (.error e, s') →
      Ran c source o m (.error e) ⟨s', (c.directed o m).held,
        .miss canonical store.dir :: (c.directed o m).events⟩
  | made {contents out : Bytes} {canonical p : Path} {store : Store}
      {opened written : FileSystem} :
      Arrival source (c.destinationFrom o m) m.system contents canonical store opened →
      (opened.runFiles (store.contains (c.artifactName o canonical contents))).1 = false →
      c.transform.apply contents o = .ok out →
      opened.runFiles (store.write (c.artifactName o canonical contents) out) =
        (.ok p, written) →
      Ran c source o m (.ok p)
        ((pruneAfter store (c.artifactName o canonical contents) canonical).run Machine.answer
          ⟨written, (c.directed o m).held, .wrote p out.length :: .miss canonical store.dir ::
            (c.directed o m).events⟩).2

section

variable {c : Compiler} {source : Path} {o : Options} {m : Machine} {contents : Bytes}
  {canonical : Path}

/-- What a call comes to when the artifact is not there. -/
theorem ran_make {store : Store} {opened : FileSystem}
    (harrival : Arrival source (c.destinationFrom o m) m.system contents canonical store opened)
    (habsent : (opened.runFiles
      (store.contains (c.artifactName o canonical contents))).1 = false) :
    Ran c source o m
      ((c.make o store canonical contents).run Machine.answer
        ⟨opened, (c.directed o m).held, (c.directed o m).events⟩).1
      ((c.make o store canonical contents).run Machine.answer
        ⟨opened, (c.directed o m).held, (c.directed o m).events⟩).2 := by
  unfold make
  rw [Program.run_then, run_ask]
  dsimp only [Machine.answer]
  cases happly : c.transform.apply contents o with
  | error e => exact .rejected harrival habsent happly
  | ok out =>
      dsimp only
      rw [Program.run_then, run_onFiles]
      dsimp only
      cases hwrite : opened.runFiles (store.write (c.artifactName o canonical contents) out) with
      | mk result written =>
          cases result with
          | error e => exact .unwritten harrival habsent happly hwrite
          | ok p =>
              dsimp only
              rw [Program.run_then, run_ask, Program.run_then]
              exact .made harrival habsent happly hwrite

/-- What a call comes to when it knows where its artifact goes. -/
theorem ran_compileInto {d : Path} (hcontents : m.system.contents source = .ok contents)
    (hcanonical : m.system.canonical source = .ok canonical)
    (hd : c.destinationFrom o m = .ok d) :
    Ran c source o m ((c.compileInto o d canonical contents).run Machine.answer (c.directed o m)).1
      ((c.compileInto o d canonical contents).run Machine.answer (c.directed o m)).2 := by
  have hsystem : (c.directed o m).system = m.system := c.destination_system o m
  unfold compileInto
  rw [Program.run_then, run_onFiles, hsystem]
  dsimp only
  cases hopen : m.system.runFiles (Store.openAt d) with
  | mk result opened =>
      cases result with
      | error e => exact .unopened hcontents hcanonical hd hopen
      | ok store =>
          have harrival : Arrival source (c.destinationFrom o m) m.system contents canonical store
              opened := ⟨hcontents, hcanonical, d, hd, hopen⟩
          dsimp only
          rw [Program.run_then, run_onFiles]
          cases hthere : (opened.runFiles
              (store.contains (c.artifactName o canonical contents))).1 with
          | true =>
              dsimp only
              rw [Store.contains_system]
              exact .hit harrival hthere
          | false =>
              dsimp only
              rw [Store.contains_system]
              exact ran_make harrival hthere

/-- Every call ends in one of these ways. -/
theorem template_ran (c : Compiler) (source : Path) (o : Options) (m : Machine) :
    Ran c source o m ((c.template source o).run Machine.answer m).1
      ((c.template source o).run Machine.answer m).2 := by
  unfold template
  rw [Program.run_then, run_ask]
  dsimp only [Machine.answer, answer]
  cases hcontents : m.system.contents source with
  | error e => exact .unread hcontents
  | ok contents =>
      dsimp only
      rw [Program.run_then, run_ask]
      dsimp only [Machine.answer, answer]
      cases hcanonical : m.system.canonical source with
      | error e => exact .unresolved hcontents hcanonical
      | ok canonical =>
          dsimp only
          rw [Program.run_then]
          cases hd : ((c.destination o).run Machine.answer m).1 with
          | error e => exact .undirected hcontents hcanonical hd
          | ok d => exact ran_compileInto hcontents hcanonical hd

/-- The files do not tell what else became of the machine. -/
theorem Ran.course {result : Except CompileError Path} {after : Machine}
    (h : Ran c source o m result after) :
    Course c source o (c.destinationFrom o m) m.system result after.system := by
  cases h with
  | unread hcontents => exact .unread hcontents
  | unresolved hcontents hcanonical => exact .unresolved hcontents hcanonical
  | undirected hcontents hcanonical hd =>
      have hsystem : (c.directed o m).system = m.system := c.destination_system o m
      rw [hsystem]
      exact .undirected hcontents hcanonical hd
  | unopened hcontents hcanonical hd hopen => exact .unopened hcontents hcanonical hd hopen
  | hit harrival hthere => exact .hit harrival hthere
  | rejected harrival habsent happly => exact .rejected harrival habsent happly
  | unwritten harrival habsent happly hwrite => exact .unwritten harrival habsent happly hwrite
  | made harrival habsent happly hwrite =>
      rw [run_pruneAfter]
      exact .made harrival habsent happly hwrite

/-- Every call takes one of the courses. -/
theorem template_course (c : Compiler) (source : Path) (o : Options) (m : Machine) :
    Course c source o (c.destinationFrom o m) m.system
      ((c.template source o).run Machine.answer m).1
      ((c.template source o).run Machine.answer m).2.system :=
  (c.template_ran source o m).course

end

/-- What a call answers is the path of the artifact that it named. -/
theorem Course.named {c : Compiler} {source : Path} {o : Options}
    {dir : Except CompileError Path} {s after : FileSystem} {p : Path}
    (h : Course c source o dir s (.ok p) after) :
    ∃ contents canonical store opened, Arrival source dir s contents canonical store opened ∧
      p = store.artifactPath (c.artifactName o canonical contents) := by
  cases h with
  | hit harrival _ => exact ⟨_, _, _, _, harrival, rfl⟩
  | made harrival _ _ hwrite => exact ⟨_, _, _, _, harrival, Store.path_of_write hwrite⟩

/-! ## The default directory that is kept -/

/-- Whatever default directory is kept, a program runs the same and keeps it. -/
def LeavesDefault {α : Type} (p : CompileProgram α) : Prop :=
  ∀ (m : Machine) (held : Option Path),
    p.run Machine.answer { m with held := held } =
      ((p.run Machine.answer m).1, { (p.run Machine.answer m).2 with held := held })

namespace LeavesDefault

theorem pure {α : Type} (a : α) : LeavesDefault (Pure.pure a) := fun _ _ => rfl

theorem bind {α β : Type} {p : CompileProgram α} {k : α → CompileProgram β}
    (hp : LeavesDefault p) (hk : ∀ a, LeavesDefault (k a)) : LeavesDefault (p >>= k) := by
  intro m held
  rw [Program.run_then, Program.run_then, hp m held]
  exact hk _ _ held

theorem tell (e : Event) : LeavesDefault (ask (.tell e)) := fun _ _ => rfl

theorem onFiles {α : Type} (p : FileProgram α) : LeavesDefault (onFiles p) := by
  intro m held
  rw [run_onFiles, run_onFiles]

theorem file (r : Request) : LeavesDefault (ask (.file r)) := fun _ _ => rfl

theorem pruneAfter (store : Store) (n : ArtifactName) (canonical : Path) :
    LeavesDefault (pruneAfter store n canonical) := by
  refine bind (file _) fun status => ?_
  cases status with
  | error e => exact tell _
  | ok status =>
      refine bind (onFiles _) fun removed => ?_
      cases removed with
      | error e => exact tell _
      | ok n => cases n with
        | zero => exact pure ()
        | succ n => exact tell _

theorem make (c : Compiler) (o : Options) (store : Store) (canonical : Path) (contents : Bytes) :
    LeavesDefault (c.make o store canonical contents) := by
  refine bind (tell _) fun _ => ?_
  cases c.transform.apply contents o with
  | error e => exact pure _
  | ok out =>
      refine bind (onFiles _) fun written => ?_
      cases written with
      | error e => exact pure _
      | ok p => exact bind (tell _) fun _ => bind (pruneAfter _ _ _) fun _ => pure _

theorem compileInto (c : Compiler) (o : Options) (dir canonical : Path) (contents : Bytes) :
    LeavesDefault (c.compileInto o dir canonical contents) := by
  refine bind (onFiles _) fun opened => ?_
  cases opened with
  | error e => exact pure _
  | ok store =>
      refine bind (onFiles _) fun there => ?_
      cases there with
      | true => exact bind (tell _) fun _ => pure _
      | false => exact make c o store canonical contents

/-- A call with a destination of its own does not ask for the default directory. -/
theorem template {c : Compiler} {source : Path} {o : Options} {dir : Path}
    (h : o.override? = some dir) : LeavesDefault (c.template source o) := by
  refine bind (file _) fun contents => ?_
  cases contents with
  | error e => exact pure _
  | ok contents =>
      refine bind (file _) fun canonical => ?_
      cases canonical with
      | error e => exact pure _
      | ok canonical =>
          rw [destination_of_override c h]
          refine bind (pure _) fun d => ?_
          cases d with
          | error e => exact pure _
          | ok dir => exact compileInto c o dir canonical contents

end LeavesDefault

/-- With a destination of its own a call is the same under every root. -/
theorem template_of_override {c : Compiler} {source : Path} {o : Options} {dir : Path}
    (h : o.override? = some dir) (root : Root) (subdir : Path) :
    ({ c with root := root, subdir := subdir } : Compiler).template source o =
      c.template source o := by
  unfold template
  rw [destination_of_override _ h, destination_of_override _ h]
  rfl

end Compiler

end TemplateCache
