import TemplateCache.Config.Basic
import TemplateCache.Error.Config
import TemplateCache.FileSystem.Directories

/-!
# The default directory

Where artifacts go that no option sends elsewhere: a directory under the resources root. The
root is fixed or comes from the environment, and finding it may fail. The directory is found at
the first call that succeeds and stays the same from then on; a failure is not kept.

`DefaultDir.get` is a program over four questions, each answered in one step, so that calls may
overlap: whoever comes to publish a directory second gets the one published first.
-/

namespace TemplateCache

/-! ## The resources root -/

/-- Where the resources root comes from. -/
inductive Root where
  | fixed (path : Path)
  | environment
  deriving DecidableEq

namespace Root

/-- The root under the working directory that counts where the environment names none. -/
def underWorkingDir : FileProgram (Except ConfigError Path) := do
  match ← FileProgram.ask .workingDirectory with
  | .ok dir => return .ok (dir.join (.ofString "resources"))
  | .error e => return .error (.noRoot (String.ofList e.message))

/-- The resources root. An empty variable counts as none. -/
def resolve : Root → FileProgram (Except ConfigError Path)
  | .fixed path => return .ok path
  | .environment => do
      match ← FileProgram.ask .resources with
      | some (b :: rest) => return .ok ⟨b :: rest⟩
      | _ => underWorkingDir

end Root

/-! ## The directory found once -/

/-- What a call for the default directory asks. -/
inductive DirQuestion where
  /-- The directory found before, if any. -/
  | held
  /-- The resources root. -/
  | resolve
  /-- Tells that a directory was found. -/
  | announce (dir : Path)
  /-- Offers a directory to be kept; the answer is the one that is kept. -/
  | publish (dir : Path)

abbrev DirQuestion.Answer : DirQuestion → Type
  | .held => Option Path
  | .resolve => Except ConfigError Path
  | .announce _ => Unit
  | .publish _ => Path

abbrev DirInterface : Interface := ⟨DirQuestion, DirQuestion.Answer⟩

/-- A default directory: its place under the root, and its path once it was found. -/
structure DefaultDir where
  subdir : Path
  resolved : Option Path
  deriving DecidableEq

namespace DefaultDir

/-- A default directory that was not found yet. -/
def fresh (subdir : Path) : DefaultDir := ⟨subdir, none⟩

/-- The program that asks one question. -/
def ask (q : DirQuestion) : Program DirInterface q.Answer := Program.question (I := DirInterface) q

/-- The directory under the root, found now or before. -/
def get (subdir : Path) : Program DirInterface (Except ConfigError Path) := do
  match ← ask .held with
  | some dir => return .ok dir
  | none =>
      match ← ask .resolve with
      | .error e => return .error e
      | .ok root =>
          let dir := root.join subdir
          ask (.announce dir)
          return .ok (← ask (.publish dir))

/-- The answers to one call after another: `resolve` finds the root, given and giving its own
state; what was published first stays. -/
def answer {σ : Type} (resolve : σ → Except ConfigError Path × σ) :
    (q : DirQuestion) → DefaultDir × σ → q.Answer × (DefaultDir × σ)
  | .held, (d, s) => (d.resolved, (d, s))
  | .resolve, (d, s) => ((resolve s).1, (d, (resolve s).2))
  | .announce _, (d, s) => ((), (d, s))
  | .publish dir, (d, s) =>
      let kept := d.resolved.getD dir
      (kept, ({ d with resolved := some kept }, s))

/-- One call by itself. -/
def getWith {σ : Type} (resolve : σ → Except ConfigError Path × σ) (d : DefaultDir) (s : σ) :
    Except ConfigError Path × (DefaultDir × σ) :=
  (get d.subdir).run (answer resolve) (d, s)

/-- The form shown to a developer. -/
def describe (d : DefaultDir) : List Char :=
  let resolved := match d.resolved with
    | none => "None".toList
    | some dir => "Some(".toList ++ Quoted.bytes dir.bytes ++ [')']
  "DefaultCacheDir ".toList ++ ['{'] ++ " subdir: ".toList ++ Quoted.bytes d.subdir.bytes
    ++ ", resolved: ".toList ++ resolved ++ [' ', '}']

end DefaultDir

namespace Config

/-- Where a configuration has the resources root from. -/
def rootSource (c : Config) : Root :=
  match c.root with
  | some path => .fixed path
  | .none => .environment

end Config

end TemplateCache
