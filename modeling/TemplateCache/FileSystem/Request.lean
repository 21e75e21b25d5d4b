import TemplateCache.FileSystem.Walk
import TemplateCache.Program

/-!
# Requests to a file system

The single operations that the library performs on files, each of which happens in one step, and
what a file system answers to each. `FileSystem.answer` is the meaning of a request: the answer,
and the file system after it. Making, removing or renaming an entry gives its directory the time of
the operation.
-/

namespace TemplateCache

/-- What a node is and when it was last written. -/
structure Status where
  isDirectory : Bool
  isFile : Bool
  modified : Moment
  deriving DecidableEq

inductive Request where
  /-- The bytes of a file. -/
  | contents (p : Path)
  /-- The absolute path of what a path leads to, without links. -/
  | canonical (p : Path)
  /-- What a path leads to. -/
  | status (p : Path)
  /-- What an entry of a directory is, be it a link. -/
  | entryStatus (dir : Path) (name : Name)
  | makeDirectory (p : Path)
  /-- The names in a directory. -/
  | names (p : Path)
  /-- Removes a file or a link. -/
  | remove (p : Path)
  /-- Makes a file with a new name in a directory and writes it, readable by everyone. -/
  | temporary (dir : Path) (data : Bytes)
  /-- Gives a file another name, in place of what had it. -/
  | rename (source target : Path)
  | workingDirectory
  /-- The variable that names the resources root. -/
  | resources

/-- The kind of answer to a request. -/
abbrev Request.Answer : Request → Type
  | .contents _ => Except SystemError Bytes
  | .canonical _ => Except SystemError Path
  | .status _ => Except SystemError Status
  | .entryStatus _ _ => Except SystemError Status
  | .makeDirectory _ => Except SystemError Unit
  | .names _ => Except SystemError (List Name)
  | .remove _ => Except SystemError Unit
  | .temporary _ _ => Except SystemError Path
  | .rename _ _ => Except SystemError Unit
  | .workingDirectory => Except SystemError Path
  | .resources => Option Bytes

/-- Requests as an interface for programs. -/
abbrev FileInterface : Interface := ⟨Request, Request.Answer⟩

/-- Programs that work on files and nothing else. -/
abbrev FileProgram := Program FileInterface

def Node.status (n : Node) : Status where
  isDirectory := n.isDirectory
  isFile := match n with | .file _ _ _ => true | _ => false
  modified := n.modified

namespace FileSystem

/-! ## Looking -/

def contents (s : FileSystem) (p : Path) : Except SystemError Bytes := do
  match ← s.follow p with
  | .node _ (.file data _ _) => return data
  | .node _ (.device _) => return []
  | .node _ _ => throw .isDirectory
  | .removed _ _ => throw .isDirectory
  | .vacant _ _ => throw .missing

/-- A removed directory has no path. -/
def workingDirectory (s : FileSystem) : Except SystemError Path :=
  match s.workingDir with
  | .inside l => .ok l.path
  | .removed _ _ => .error .missing

/-- The path of a place is spelled on the way to it, link by link, and never grows too long. -/
def canonical (s : FileSystem) (p : Path) : Except SystemError Path := do
  checkPath p
  if !p.isAbsolute then
    let _ ← s.workingDirectory
  match ← s.locate .spell true p with
  | .node l _ => return Location.path l
  | .removed _ _ => throw .missing
  | .vacant _ _ => throw .missing

/-- The status of what a walk ended at. A removed directory still is one. -/
def spotStatus : Spot → Except SystemError Status
  | .node _ n => .ok n.status
  | .removed _ _ => .ok ⟨true, false, ⟨0, 0⟩⟩
  | .vacant _ _ => .error .missing

def status (s : FileSystem) (p : Path) : Except SystemError Status := do
  spotStatus (← s.follow p)

/-- The entry is looked up in the directory itself, so that only the path of the directory can be
too long. -/
def entryStatus (s : FileSystem) (dir : Path) (name : Name) : Except SystemError Status := do
  match ← s.follow dir with
  | .node l (.directory _) =>
      match s.disk.get? (name :: l) with
      | some n => return n.status
      | none => throw .missing
  | .node _ _ => throw .notDirectory
  | .removed _ _ => throw .missing
  | .vacant _ _ => throw .missing

def names (s : FileSystem) (p : Path) : Except SystemError (List Name) := do
  match ← s.follow p with
  | .node l (.directory _) => return s.disk.names l
  | .node _ _ => throw .notDirectory
  | .removed _ _ => return []
  | .vacant _ _ => throw .missing

/-! ## Changing -/

/-- A system with a node under a name in a directory. -/
def put (s : FileSystem) (dir : Location) (name : Name) (n : Node) : FileSystem :=
  { s with disk := (s.disk.set (name :: dir) n).touch dir s.now }

/-- A system without the node under a name in a directory. -/
def drop (s : FileSystem) (dir : Location) (name : Name) : FileSystem :=
  { s with disk := (s.disk.erase (name :: dir)).touch dir s.now }

/-- A change that may fail and then changes nothing. -/
def attempt (s : FileSystem) (change : Except SystemError FileSystem) :
    Except SystemError Unit × FileSystem :=
  match change with
  | .ok t => (.ok (), t)
  | .error e => (.error e, s)

def makeDirectory (s : FileSystem) (p : Path) : Except SystemError FileSystem := do
  match ← s.locate .entry false p with
  | .vacant dir name => return s.put dir name (.directory s.now)
  | _ => throw .alreadyThere

def remove (s : FileSystem) (p : Path) : Except SystemError FileSystem := do
  match ← s.entry p with
  | .node _ (.directory _) => throw .isDirectory
  | .node (name :: dir) _ => return s.drop dir name
  | .node [] _ => throw .isDirectory
  | .removed _ _ => throw .isDirectory
  | .vacant _ _ => throw .missing

/-- A file takes another name. A directory is not replaced. -/
def rename (s : FileSystem) (source target : Path) : Except SystemError FileSystem := do
  let old ← s.entry source
  let new ← s.entry target
  match old with
  | .vacant _ _ => throw .missing
  | .removed _ _ => throw .isDirectory
  | .node _ (.directory _) => throw .isDirectory
  | .node [] _ => throw .isDirectory
  | .node (name :: dir) n =>
      match new with
      | .node _ (.directory _) => throw .isDirectory
      | .removed _ _ => throw .isDirectory
      | .node [] _ => throw .isDirectory
      | .node (newName :: newDir) _ => return (s.drop dir name).put newDir newName n
      | .vacant newDir newName => return (s.drop dir name).put newDir newName n

/-! ## Temporary files -/

/-- The permissions of an artifact: everyone may read it, its owner may write it. -/
def fileMode : Nat := 0o644

/-- The name of a temporary file by its number. -/
def temporaryName (n : Nat) : Name :=
  Utf8.encode (".tmp".toList ++ Decimal.padded 6 n)

/-- Makes a temporary file under the first free number from the seed on; `tries` numbers are
tried. -/
def temporaryFrom (s : FileSystem) (dir : Path) (data : Bytes) :
    Nat → Nat → Except SystemError (Path × FileSystem)
  | 0, n => .error (.temporary .alreadyThere (dir.join ⟨temporaryName n⟩))
  | tries + 1, n =>
      let p := dir.join ⟨temporaryName n⟩
      match s.entry p with
      | .ok (.vacant l name) =>
          .ok (p, { s.put l name (.file data s.now fileMode) with seed := n + 1 })
      | .ok _ => temporaryFrom s dir data tries (n + 1)
      | .error e => .error (.temporary e p)

/-- Some number within as many tries as there are nodes, and one more, is free. -/
def temporary (s : FileSystem) (dir : Path) (data : Bytes) :
    Except SystemError (Path × FileSystem) :=
  s.temporaryFrom dir data (s.disk.nodes.length + 1) s.seed

/-! ## Answers -/

/-- The answer to a request and the file system after it. -/
def answer : (r : Request) → FileSystem → r.Answer × FileSystem
  | .contents p, s => (s.contents p, s)
  | .canonical p, s => (s.canonical p, s)
  | .status p, s => (s.status p, s)
  | .entryStatus dir name, s => (s.entryStatus dir name, s)
  | .makeDirectory p, s => s.attempt (s.makeDirectory p)
  | .names p, s => (s.names p, s)
  | .remove p, s => s.attempt (s.remove p)
  | .temporary dir data, s =>
      match s.temporary dir data with
      | .ok (p, t) => (.ok p, t)
      | .error e => (.error e, s)
  | .rename source target, s => s.attempt (s.rename source target)
  | .workingDirectory, s => (s.workingDirectory, s)
  | .resources, s => (s.resources, s)

end FileSystem

end TemplateCache
