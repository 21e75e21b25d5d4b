import TemplateCache.Error.System
import TemplateCache.FileSystem.Basic

/-!
# Following a path

A walk goes from the root or the working directory through the segments of a path. Symbolic
links on the way are followed, up to a fixed number of them; whether one at the end is followed
is up to the operation. A walk ends at a node, at a removed directory, or at a vacant name in an
existing directory, where a node could be made.

Only names and the path that was asked for have a greatest length, so a walk may come to places
whose own paths are longer. A walk that spells places looks everything up by its path from the
root, and comes to no such place.
-/

namespace TemplateCache

/-! ## Segments -/

/-- A part of a path between slashes. -/
inductive Segment where
  | here
  | up
  | name (n : Name)
  deriving DecidableEq

/-- What the bytes between two slashes ask for. -/
def Segment.ofBytes (part : Bytes) : Segment :=
  if part = [Path.dot] then .here else if part = [Path.dot, Path.dot] then .up else .name part

/-- The segments of a path; slashes at the end do not count. -/
def Path.segments (p : Path) : List Segment :=
  ((Path.split Path.slash p.bytes).filter (· ≠ [])).map Segment.ofBytes

/-- The segments of a path; a slash at the end asks for a directory, as a final `.` does. -/
def Path.strictSegments (p : Path) : List Segment :=
  if p.bytes.getLast? = some Path.slash then p.segments ++ [.here] else p.segments

/-! ## Walks -/

/-- The most bytes of a name. -/
def nameLimit : Nat := 255

/-- A path must have fewer bytes than this. -/
def pathLimit : Nat := 4096

/-- The most links that a walk follows. -/
def linkLimit : Nat := 40

/-- Where a walk ends. -/
inductive Spot where
  | node (l : Location) (n : Node)
  | removed (base : Location) (levels : Nat)
  | vacant (dir : Location) (name : Name)
  deriving DecidableEq

/-- How a walk treats what it comes to. -/
inductive Manner where
  /-- A link at the end is not followed. -/
  | entry
  /-- All links are followed. -/
  | follow
  /-- All links are followed, and everything is looked up by its path from the root. -/
  | spell
  deriving DecidableEq

/-- Whether the segments after an entry ask for a directory and do not go on in it. -/
def asksDirectory : List Segment → Bool
  | [] => false
  | .up :: _ => true
  | .name _ :: _ => false
  | [.here] => true
  | .here :: rest => asksDirectory rest

/-- Where a walk along a path starts. -/
def Place.start (workingDir : Place) (p : Path) : Place :=
  if p.isAbsolute then .inside [] else workingDir

namespace Disk

/-- The end of a walk at a place. -/
def spot (disk : Disk) : Place → Except SystemError Spot
  | .inside l =>
      match disk.get? l with
      | some n => .ok (.node l n)
      | none => .error .missing
  | .removed base levels => .ok (.removed base levels)

/-- How many bytes spell the entry at a location: its path, and a slash if no link is there and a
directory is asked for. -/
def spelling (disk : Disk) (l : Location) (rest : List Segment) : Nat :=
  match disk.get? l with
  | some (.link _ _) => l.path.bytes.length
  | _ => l.path.bytes.length + if asksDirectory rest then 1 else 0

/-- Whether a walk cannot look up a name in a directory because too many bytes spell it. -/
def unspellable (disk : Disk) (manner : Manner) (dir : Location) (n : Name)
    (rest : List Segment) : Bool :=
  nameLimit < n.length || manner == .spell && pathLimit ≤ disk.spelling (n :: dir) rest

/-- The steps of a walk from a place, where `onward` goes on after a link. -/
def steps (disk : Disk) (manner : Manner)
    (onward : Place → List Segment → Except SystemError Spot) :
    Place → List Segment → Except SystemError Spot
  | place, [] => disk.spot place
  | place, .here :: rest => steps disk manner onward place rest
  | place, .up :: rest => steps disk manner onward place.above rest
  | .removed _ _, .name _ :: _ => .error .missing
  | .inside dir, .name n :: rest =>
      if disk.unspellable manner dir n rest then .error .tooLong
      else
        match disk.get? (n :: dir) with
        | none => if rest = [] then .ok (.vacant dir n) else .error .missing
        | some (.directory _) => steps disk manner onward (.inside (n :: dir)) rest
        | some (.link target t) =>
            if rest = [] ∧ manner = .entry then .ok (.node (n :: dir) (.link target t))
            else onward (Place.start (.inside dir) target) (target.strictSegments ++ rest)
        | some node => if rest = [] then .ok (.node (n :: dir) node) else .error .notDirectory

/-- A walk that follows no more than so many links. -/
def walk (disk : Disk) (manner : Manner) :
    Nat → Place → List Segment → Except SystemError Spot
  | 0 => disk.steps manner fun _ _ => .error .tooManyLinks
  | links + 1 => disk.steps manner (disk.walk manner links)

end Disk

namespace FileSystem

/-- A path that can be walked: not empty, not too long, without a zero byte. -/
def checkPath (p : Path) : Except SystemError Unit :=
  if p.bytes.contains 0 then .error .zeroInPath
  else if p.isEmpty then .error .missing
  else if pathLimit ≤ p.bytes.length then .error .tooLong
  else .ok ()

/-- Where a path leads. A slash at its end asks for a directory if `strict`. -/
def locate (s : FileSystem) (manner : Manner) (strict : Bool) (p : Path) :
    Except SystemError Spot := do
  checkPath p
  s.disk.walk manner linkLimit (s.workingDir.start p)
    (if strict then p.strictSegments else p.segments)

/-- Where a path leads, all links followed. -/
def follow (s : FileSystem) (p : Path) : Except SystemError Spot := s.locate .follow true p

/-- The entry that a path names: a link at the end is not followed. -/
def entry (s : FileSystem) (p : Path) : Except SystemError Spot := s.locate .entry true p

end FileSystem

end TemplateCache
