import TemplateCache.FileSystem.Request

/-!
# Small programs on files

Tests for the kind of a node, and making a directory with all the directories above it.
-/

namespace TemplateCache

namespace FileProgram

/-- The program that makes one request. -/
def ask (r : Request) : FileProgram r.Answer := Program.question (I := FileInterface) r

/-- Whether a path leads to a regular file. -/
def isFile (p : Path) : FileProgram Bool := do
  match ← ask (.status p) with
  | .ok status => return status.isFile
  | .error _ => return false

/-- Whether a path leads to a directory. -/
def isDirectory (p : Path) : FileProgram Bool := do
  match ← ask (.status p) with
  | .ok status => return status.isDirectory
  | .error _ => return false

/-! ## Directories above a path -/

/-- The paths above the innermost of some components, which come innermost first. -/
def above : List Path.Component → List Path
  | [] => []
  | [_] => []
  | _ :: part :: rest => Path.ofComponents (part :: rest).reverse :: above (part :: rest)

/-- A path and the paths of the directories above it, the innermost first. -/
def ancestors (p : Path) : List Path :=
  if p.isEmpty then [] else p :: above p.components.reverse

/-- An error on making a directory does not count when the directory is there. -/
def unlessThere (p : Path) (e : SystemError) : FileProgram (Except SystemError Unit) := do
  if ← isDirectory p then return .ok () else return .error e

/-- Makes a directory; when those above it are missing, they are made first. -/
def makeAll : List Path → FileProgram (Except SystemError Unit)
  | [] => return .ok ()
  | p :: above => do
      match ← ask (.makeDirectory p) with
      | .ok () => return .ok ()
      | .error e =>
          if e ≠ .missing then unlessThere p e
          else
            match ← makeAll above with
            | .error e => return .error e
            | .ok () =>
                match ← ask (.makeDirectory p) with
                | .ok () => return .ok ()
                | .error e => unlessThere p e

/-- Makes a directory with all those above it. -/
def makeDirectories (p : Path) : FileProgram (Except SystemError Unit) := makeAll (ancestors p)

end FileProgram

end TemplateCache
