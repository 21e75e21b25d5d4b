import TemplateCache.Config.Read
import TemplateCache.DefaultDir
import TemplateCache.Event
import TemplateCache.Store
import TemplateCache.Transform

/-!
# The compiler

A compiler turns source templates into artifacts on disk and answers where they are. An artifact
that is there already for the same contents is answered as it is; otherwise the transform makes
it, it is written, and the expired ones of the same source are removed. A failure to remove them
is told and does not count.

`Compiler.template` is a program over file requests, the two questions about the default
directory that is kept, and events. `Machine` answers it in sequence.
-/

namespace TemplateCache

/-- What a compilation asks. -/
inductive CompileQuestion where
  | file (r : Request)
  /-- The default directory found before, if any. -/
  | held
  /-- Offers a default directory to be kept; the answer is the one that is kept. -/
  | publish (dir : Path)
  | tell (e : Event)

abbrev CompileQuestion.Answer : CompileQuestion → Type
  | .file r => r.Answer
  | .held => Option Path
  | .publish _ => Path
  | .tell _ => Unit

abbrev CompileInterface : Interface := ⟨CompileQuestion, CompileQuestion.Answer⟩

abbrev CompileProgram := Program CompileInterface

namespace CompileProgram

/-- The program that asks one question. -/
def ask (q : CompileQuestion) : CompileProgram q.Answer :=
  Program.question (I := CompileInterface) q

/-- A program on files as part of a compilation. -/
def onFiles {α : Type} (p : FileProgram α) : CompileProgram α :=
  p.expand fun r => ask (.file r)

end CompileProgram

open CompileProgram (ask onFiles)

/-- How templates are compiled: where the default directory is, by which transform, and with
which options where a call gives none. -/
structure Compiler where
  root : Root
  subdir : Path
  transform : Transform
  defaults : Options

namespace Compiler

/-- A compiler with a default directory under a root and the identity transform. -/
def under (root : Root) (subdir : Path) : Compiler := ⟨root, subdir, .identity, .none⟩

/-- The compiler that a configuration describes. -/
def ofConfig (c : Config) : Compiler := ⟨c.rootSource, c.subdir, .identity, c.options⟩

def withTransform (c : Compiler) (t : Transform) : Compiler := { c with transform := t }

/-! ## The default directory -/

/-- How the questions for the default directory are put in a compilation. -/
def putDirQuestion (root : Root) : (q : DirQuestion) → CompileProgram q.Answer
  | .held => ask .held
  | .resolve => onFiles root.resolve
  | .announce dir => ask (.tell (.foundDefault dir))
  | .publish dir => ask (.publish dir)

/-- The default directory, found now or before. -/
def defaultDir (c : Compiler) : CompileProgram (Except CompileError Path) := do
  match ← (DefaultDir.get c.subdir).expand (putDirQuestion c.root) with
  | .ok dir => return .ok dir
  | .error e => return .error (.config e)

/-- Where the artifact goes: the destination of the options, or the default directory. -/
def destination (c : Compiler) (o : Options) : CompileProgram (Except CompileError Path) :=
  match o.override? with
  | some dir => return .ok dir
  | none => c.defaultDir

/-! ## Compiling -/

/-- The name of the artifact of a source. -/
def artifactName (c : Compiler) (o : Options) (canonical : Path) (contents : Bytes) :
    ArtifactName :=
  .forSource canonical (Utf8.ofString c.transform.fingerprint) (Utf8.encode o.transformKey) contents

/-- Tells what became of pruning. -/
def tellPruned : Except CompileError Nat → CompileProgram Unit
  | .ok 0 => return ()
  | .ok (n + 1) => ask (.tell (.pruned (n + 1)))
  | .error e => ask (.tell (.pruneFailed e))

/-- Removes the expired artifacts of a source after a new one was written. -/
def pruneAfter (store : Store) (n : ArtifactName) (canonical : Path) : CompileProgram Unit := do
  match ← ask (.file (.status canonical)) with
  | .error e => ask (.tell (.timeUnknown e))
  | .ok status => tellPruned (← onFiles (store.prune n status.modified))

/-- Makes the artifact that is not there. -/
def make (c : Compiler) (o : Options) (store : Store) (canonical : Path) (contents : Bytes) :
    CompileProgram (Except CompileError Path) := do
  let n := c.artifactName o canonical contents
  ask (.tell (.miss canonical store.dir))
  match c.transform.apply contents o with
  | .error e => return .error e
  | .ok compiled =>
      match ← onFiles (store.write n compiled) with
      | .error e => return .error e
      | .ok artifact =>
          ask (.tell (.wrote artifact compiled.length))
          pruneAfter store n canonical
          return .ok artifact

/-- The artifact of a source in a directory, there already or made. -/
def compileInto (c : Compiler) (o : Options) (dir canonical : Path) (contents : Bytes) :
    CompileProgram (Except CompileError Path) := do
  match ← onFiles (Store.openAt dir) with
  | .error e => return .error e
  | .ok store =>
      let n := c.artifactName o canonical contents
      if ← onFiles (store.contains n) then
        ask (.tell (.hit canonical (store.artifactPath n)))
        return .ok (store.artifactPath n)
      else c.make o store canonical contents

/-- The path of the compiled artifact of a source. -/
def template (c : Compiler) (source : Path) (o : Options) :
    CompileProgram (Except CompileError Path) := do
  match ← ask (.file (.contents source)) with
  | .error e => return .error (.unreadable source e)
  | .ok contents =>
      match ← ask (.file (.canonical source)) with
      | .error e => return .error (.unreadable source e)
      | .ok canonical =>
          match ← c.destination o with
          | .error e => return .error e
          | .ok dir => c.compileInto o dir canonical contents

/-- The path of the compiled artifact of a source, with the compiler's own options. -/
def compile (c : Compiler) (source : Path) : CompileProgram (Except CompileError Path) :=
  c.template source c.defaults

end Compiler

/-! ## Running in sequence -/

/-- A file system with a compiler's default directory, if it was found, and the events so far,
the last first. -/
structure Machine where
  system : FileSystem
  held : Option Path
  events : List Event

/-- The answer to a question and the machine after it. -/
def Machine.answer : (q : CompileQuestion) → Machine → q.Answer × Machine
  | .file r, m =>
      let after := FileSystem.answer r m.system
      (after.1, { m with system := after.2 })
  | .held, m => (m.held, m)
  | .publish dir, m =>
      let kept := m.held.getD dir
      (kept, { m with held := some kept })
  | .tell e, m => ((), { m with events := e :: m.events })

end TemplateCache
