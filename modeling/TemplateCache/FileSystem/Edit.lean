import TemplateCache.FileSystem.Directories

/-!
# Edits from outside

What others do to the files that compilations work on: write, link, remove and date them, and
change the surroundings. An edit that cannot be made answers why; directories that were made on
the way to it stay. Also a listing of everything below a directory.
-/

namespace TemplateCache.FileSystem

/-- The result of a program on files and the file system after it. -/
def runFiles {α : Type} (p : FileProgram α) (s : FileSystem) : α × FileSystem :=
  p.run FileSystem.answer s

/-- Makes a directory with all those above it. -/
def makeDirectories (s : FileSystem) (p : Path) : Except SystemError Unit × FileSystem :=
  s.runFiles (FileProgram.makeDirectories p)

/-- A node with its time changed at a location. -/
def date (s : FileSystem) (l : Location) (t : Moment) : FileSystem :=
  { s with disk := s.disk.touch l t }

/-- Gives what a path leads to another time. -/
def setModified (s : FileSystem) (p : Path) (t : Moment) : Except SystemError FileSystem := do
  match ← s.follow p with
  | .node l _ => return s.date l t
  | .removed _ _ => return s
  | .vacant _ _ => throw .missing

/-- Writes a file that a path leads to, in place of what it held or new. -/
def writeHere (s : FileSystem) (p : Path) (data : Bytes) (t : Moment) :
    Except SystemError FileSystem := do
  match ← s.follow p with
  | .node l (.file _ _ mode) => return { s with disk := s.disk.set l (.file data t mode) }
  | .node _ (.device _) => return s
  | .node _ _ => throw .isDirectory
  | .removed _ _ => throw .isDirectory
  | .vacant dir name => return s.put dir name (.file data t fileMode)

/-- Makes the directories above a path. -/
def makeParents (s : FileSystem) (p : Path) : Except SystemError Unit × FileSystem :=
  match p.parent? with
  | some dir => s.makeDirectories dir
  | none => (.ok (), s)

/-- Writes a file and gives it a time; missing directories are made first. -/
def writeFile (s : FileSystem) (p : Path) (data : Bytes) (t : Moment) :
    Except SystemError Unit × FileSystem :=
  match s.makeParents p with
  | (.ok (), made) => made.attempt (made.writeHere p data t)
  | (.error e, made) => (.error e, made)

/-- Makes a symbolic link. -/
def makeLink (s : FileSystem) (p target : Path) : Except SystemError FileSystem := do
  checkPath target
  match ← s.entry p with
  | .vacant dir name => return s.put dir name (.link target s.now)
  | _ => throw .alreadyThere

/-- Removes what a path names, a directory with all that is in it. -/
def removeAll (s : FileSystem) (p : Path) : Except SystemError FileSystem := do
  match ← s.entry p with
  | .node [] _ => throw .invalid
  | .node (name :: dir) _ =>
      return { s with
        disk := (s.disk.without (Disk.covers (name :: dir))).touch dir s.now
        workingDir := s.workingDir.afterRemoval (name :: dir) }
  | .removed _ _ => throw .invalid
  | .vacant _ _ => throw .missing

/-- Makes the directory that a path leads to the working directory. -/
def changeDirectory (s : FileSystem) (p : Path) : Except SystemError FileSystem := do
  match ← s.follow p with
  | .node l (.directory _) => return { s with workingDir := .inside l }
  | .node _ _ => throw .notDirectory
  | .removed base levels => return { s with workingDir := .removed base levels }
  | .vacant _ _ => throw .missing

/-- The permissions of the file that a path leads to. -/
def mode (s : FileSystem) (p : Path) : Except SystemError Nat := do
  match ← s.follow p with
  | .node _ (.file _ _ mode) => return mode
  | .node _ (.device _) => return 0o666
  | .node _ _ => return 0o755
  | .removed _ _ => return 0o755
  | .vacant _ _ => throw .missing

/-- The names from a directory down to a location below it, joined with slashes. -/
def relativePath (above l : Location) : Path :=
  .ofComponents ((l.take (l.length - above.length)).reverse.map .name)

/-- Whether a listed node comes before another: by the bytes of their paths. -/
def inOrder (a b : Path × Node) : Bool := decide (a.1.bytes ≤ b.1.bytes)

/-- Everything below a directory by its path from there, in the order of the paths. Each is looked
up by the path of the directory joined with its own, which must not be too long. -/
def below (s : FileSystem) (p : Path) : Except SystemError (List (Path × Node)) := do
  match ← s.follow p with
  | .node l (.directory _) =>
      let nodes := s.disk.nodes.filter fun entry => Disk.covers l entry.1 && entry.1 != l
      let found := nodes.map fun entry => (relativePath l entry.1, entry.2)
      if found.any fun entry => pathLimit ≤ (p.join entry.1).bytes.length then throw .tooLong
      return found.mergeSort inOrder
  | .node _ _ => throw .notDirectory
  | .removed _ _ => return []
  | .vacant _ _ => throw .missing

/-- A file system with nothing but some directories, files being made at one fixed time. -/
def ofDirectories (dirs : List Location) (now : Moment) : FileSystem where
  disk := dirs.foldl (fun d l => d.set l (.directory now)) ⟨[], .nil⟩
  workingDir := .inside []
  now := now
  resources := none
  seed := 0

end TemplateCache.FileSystem
