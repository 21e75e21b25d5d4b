import TemplateCache.Text.Utf8

/-!
# Paths

A path is a byte string; a slash separates its parts. What a path *says* is its list of
components: repeated and trailing slashes and every `.` but a leading one say nothing, so two
spellings of one path have equal components. Joining keeps the bytes as they were given, and the
absolute form of a path is its components set after the working directory.
-/

namespace TemplateCache

/-- A path as it was spelled. -/
structure Path where
  bytes : Bytes
  deriving DecidableEq

namespace Path

def slash : UInt8 := 47

def dot : UInt8 := 46

/-- The path that a text spells. -/
def ofString (text : String) : Path := ⟨Utf8.ofString text⟩

/-- The text shown for a path: what is no text in it is replaced. -/
def shown (p : Path) : List Char := Utf8.decodeLenient p.bytes

/-! ## Components -/

/-- A part of a path that says something. -/
inductive Component where
  | root
  | here
  | up
  | name (bytes : Bytes)
  deriving DecidableEq

/-- The bytes between separators; a byte string without one is a single segment. -/
def split (separator : UInt8) : Bytes → List Bytes
  | [] => [[]]
  | b :: rest =>
      if b = separator then [] :: split separator rest
      else
        match split separator rest with
        | [] => [[b]]
        | segment :: segments => (b :: segment) :: segments

/-- What a segment says after the beginning of a path. -/
def component? (segment : Bytes) : Option Component :=
  if segment = [] then none
  else if segment = [dot] then none
  else if segment = [dot, dot] then some .up
  else some (.name segment)

def isAbsolute (p : Path) : Bool := p.bytes.head? == some slash

def isEmpty (p : Path) : Bool := p.bytes.isEmpty

/-- The beginning of a path that says more than a name: its root or a leading `.`. -/
def beginning (p : Path) : List Component :=
  if p.isAbsolute then [.root]
  else if (split slash p.bytes).head? = some [dot] then [.here]
  else []

/-- What the segments of a path say, its beginning aside. -/
def inner (p : Path) : List Component := (split slash p.bytes).filterMap component?

/-- The components of a path, in order. -/
def components (p : Path) : List Component := p.beginning ++ p.inner

/-- Two paths say the same. -/
def same (p q : Path) : Bool := p.components == q.components

/-- The bytes that spell a component. -/
def Component.bytes : Component → Bytes
  | .root => [slash]
  | .here => [dot]
  | .up => [dot, dot]
  | .name bytes => bytes

/-! ## Joining -/

/-- A relative path is set after another with one slash between them; an absolute one stands
alone. -/
def join (p q : Path) : Path :=
  if q.isAbsolute then q
  else if p.isEmpty || p.bytes.getLast? == some slash then ⟨p.bytes ++ q.bytes⟩
  else ⟨p.bytes ++ slash :: q.bytes⟩

/-- The plain spelling of a list of components. -/
def ofComponents (parts : List Component) : Path :=
  parts.foldl (fun p part => p.join ⟨part.bytes⟩) ⟨[]⟩

/-! ## The last component -/

/-- The path without its last component; a root and an empty path have none to drop. -/
def parent? (p : Path) : Option Path :=
  match p.components.getLast? with
  | none => none
  | some .root => none
  | some _ => some (ofComponents p.components.dropLast)

/-- The last component, if it is a name. -/
def fileName? (p : Path) : Option Bytes :=
  match p.components.getLast? with
  | some (.name bytes) => some bytes
  | _ => none

/-- A name cut at its last dot: what comes before and after it. A name without a dot, or with
one at its start only, is not cut. -/
def cut? (name : Bytes) : Option (Bytes × Bytes) :=
  let after := (name.reverse.takeWhile (· != dot)).reverse
  let before := name.take (name.length - after.length - 1)
  if after.length < name.length ∧ before ≠ [] then some (before, after) else none

/-- The last name without its extension. -/
def stem? (p : Path) : Option Bytes :=
  p.fileName?.map fun name => ((cut? name).map Prod.fst).getD name

/-- What follows the last dot of the last name. -/
def extension? (p : Path) : Option Bytes :=
  p.fileName?.bind fun name => (cut? name).map Prod.snd

/-! ## The absolute form -/

/-- Where the absolute form of a path starts: at the working directory for a relative one, else
at the root, whose two slashes are kept when there are exactly two. -/
def absoluteStart (workingDir p : Path) : Path :=
  if p.isAbsolute then
    if (p.bytes.takeWhile (· == slash)).length = 2 then ⟨[slash, slash]⟩ else ⟨[slash]⟩
  else workingDir

/-- Whether a component moves from one directory to another. -/
def Component.moves : Component → Bool
  | .up => true
  | .name _ => true
  | _ => false

/-- The absolute form of a path: the components that move, one after another from the start;
`..` is kept, and so is a slash at the end. -/
def absolute (workingDir p : Path) : Path :=
  let steps := p.components.filter Component.moves
  let body := steps.foldl (fun q step => q.join ⟨step.bytes⟩) (absoluteStart workingDir p)
  if p.bytes.getLast? = some slash then body.join ⟨[]⟩ else body

/-- Whether a path's components begin with another's. -/
def startsWith (p q : Path) : Bool := q.components.isPrefixOf p.components

end Path

end TemplateCache
