import TemplateCache.Artifact.Name
import TemplateCache.Error.Compile
import TemplateCache.FileSystem.Directories

/-!
# Artifact stores

A store is a directory that holds artifacts. An artifact is written under a temporary name and
renamed into place, so a reader sees either nothing or all of it. Pruning removes the artifacts
of the same source, transform and options that were written before the source last changed; one
written later may still be in use by a caller who read the source in between.
-/

namespace TemplateCache

structure Store where
  dir : Path
  deriving DecidableEq

namespace Store

open FileProgram (ask isFile)

/-! ## Opening -/

/-- The absolute form of a directory; the working directory is asked for where it matters. -/
def absolute (dir : Path) : FileProgram (Except SystemError Path) := do
  if dir.isEmpty then return .error .emptyPath
  else if dir.isAbsolute then return .ok (Path.absolute ⟨[]⟩ dir)
  else
    match ← ask .workingDirectory with
    | .ok workingDir => return .ok (Path.absolute workingDir dir)
    | .error e => return .error e

/-- Makes sure that a directory is there. -/
def ensure (dir : Path) : FileProgram (Except CompileError Unit) := do
  match ← ask (.status dir) with
  | .ok status =>
      if status.isDirectory then return .ok () else return .error (.config (.notDirectory dir))
  | .error e =>
      if e ≠ .missing then return .error (.unwritable dir e)
      else
        match ← FileProgram.makeDirectories dir with
        | .ok () => return .ok ()
        | .error e => return .error (.unwritable dir e)

/-- The store in a directory, which is made if it is missing. -/
def openAt (dir : Path) : FileProgram (Except CompileError Store) := do
  match ← absolute dir with
  | .error e => return .error (.unwritable dir e)
  | .ok full =>
      match ← ensure full with
      | .ok () => return .ok ⟨full⟩
      | .error e => return .error e

/-! ## Artifacts -/

/-- Where the artifact with a name stands. -/
def artifactPath (s : Store) (n : ArtifactName) : Path := s.dir.join ⟨Utf8.encode n.fileName⟩

/-- Whether the artifact is there as a regular file. -/
def contains (s : Store) (n : ArtifactName) : FileProgram Bool := isFile (s.artifactPath n)

/-- Writes an artifact all at once. A temporary file that cannot take the artifact's name is
removed. -/
def write (s : Store) (n : ArtifactName) (data : Bytes) :
    FileProgram (Except CompileError Path) := do
  let path := s.artifactPath n
  match ← ask (.temporary s.dir data) with
  | .error e => return .error (.unwritable s.dir e)
  | .ok temporary =>
      match ← ask (.rename temporary path) with
      | .ok () => return .ok path
      | .error e =>
          let _ ← ask (.remove temporary)
          return .error (.unwritable path e)

/-! ## Pruning -/

/-- Whether an entry's name makes it a candidate for removal. -/
def isOther (keep : ArtifactName) (name : Name) : Bool :=
  match Utf8.decode? name with
  | none => false
  | some text => text != keep.fileName && keep.isSibling text

/-- What became of an entry. -/
inductive Pruned where
  | kept
  | removed
  deriving DecidableEq

/-- Removes an entry if it is expired. One that is gone already does not count. -/
def pruneEntry (s : Store) (sourceTime : Moment) (name : Name) :
    FileProgram (Except CompileError Pruned) := do
  match ← ask (.entryStatus s.dir name) with
  | .error _ => return .ok .kept
  | .ok status =>
      if !status.modified.before sourceTime then return .ok .kept
      else
        let path := s.dir.join ⟨name⟩
        match ← ask (.remove path) with
        | .ok () => return .ok .removed
        | .error e =>
            if e = .missing then return .ok .kept else return .error (.unwritable path e)

/-- Removes the expired ones of some entries, one after another, up to the first failure. -/
def pruneEntries (s : Store) (sourceTime : Moment) :
    List Name → FileProgram (Except CompileError Nat)
  | [] => return .ok 0
  | name :: rest => do
      match ← s.pruneEntry sourceTime name with
      | .error e => return .error e
      | .ok result =>
          match ← s.pruneEntries sourceTime rest with
          | .error e => return .error e
          | .ok n => return .ok (if result = .removed then n + 1 else n)

/-- Removes the expired siblings of an artifact and answers how many there were. -/
def prune (s : Store) (keep : ArtifactName) (sourceTime : Moment) :
    FileProgram (Except CompileError Nat) := do
  match ← ask (.names s.dir) with
  | .error e => return .error (.unwritable s.dir e)
  | .ok names => s.pruneEntries sourceTime (names.filter (isOther keep))

/-! ## Listing -/

/-- Whether a name is text that begins as artifact names do. -/
def isArtifactLike (name : Name) : Bool :=
  match Utf8.decode? name with
  | none => false
  | some text => (ArtifactName.leading ++ ['_']).isPrefixOf text

/-- Those of some entries that are regular files. -/
def regularFiles (s : Store) : List Name → FileProgram (List Name)
  | [] => return []
  | name :: rest => do
      let here ← isFile (s.dir.join ⟨name⟩)
      let others ← s.regularFiles rest
      return if here then name :: others else others

/-- The order of names by their bytes. -/
def namesInOrder (a b : Name) : Bool := decide (a ≤ b)

/-- The paths of the artifacts, in the order of their names. -/
def list (s : Store) : FileProgram (Except CompileError (List Path)) := do
  match ← ask (.names s.dir) with
  | .error e => return .error (.unwritable s.dir e)
  | .ok names =>
      let files ← s.regularFiles (names.filter isArtifactLike)
      return .ok ((files.mergeSort namesInOrder).map fun name => s.dir.join ⟨name⟩)

end Store

end TemplateCache
