import TemplateCache.Path.Basic

/-!
# File systems

What is on disk: a map from *locations* to files, directories and symbolic links, and beside it
the little else that operations depend on: the working directory, the clock, one environment
variable and the supply of names for temporary files. A location is the way to a node from the
root, names only, the innermost first; the way to a directory's entry is therefore its name in
front of the directory's location.
-/

namespace TemplateCache

/-- The name of a directory entry. -/
abbrev Name := Bytes

/-- The names from a node up to the root. -/
abbrev Location := List Name

/-- A point in time, in seconds and nanoseconds. -/
structure Moment where
  seconds : Int
  nanoseconds : Nat
  deriving DecidableEq, Repr

/-- Whether a point in time is strictly earlier than another. -/
def Moment.before (s t : Moment) : Bool :=
  s.seconds < t.seconds || (s.seconds == t.seconds && s.nanoseconds < t.nanoseconds)

/-- What can stand at a location. -/
inductive Node where
  | directory (modified : Moment)
  | file (data : Bytes) (modified : Moment) (mode : Nat)
  | link (target : Path) (modified : Moment)
  /-- A device that reads as empty. -/
  | device (modified : Moment)
  deriving DecidableEq

namespace Node

def isDirectory : Node → Bool
  | .directory _ => true
  | _ => false

def modified : Node → Moment
  | .directory t => t
  | .file _ t _ => t
  | .link _ t => t
  | .device t => t

/-- The same node with another time. -/
def withModified (t : Moment) : Node → Node
  | .directory _ => .directory t
  | .file data _ mode => .file data t mode
  | .link target _ => .link target t
  | .device _ => .device t

end Node

/-! ## Disks -/

/-- Nodes by their locations, each location once. -/
structure Disk where
  nodes : List (Location × Node)
  distinct : nodes.Pairwise fun a b => a.1 ≠ b.1

namespace Disk

/-- What stands at a location. -/
def get? (d : Disk) (l : Location) : Option Node := d.nodes.lookup l

/-- A disk without the nodes at some locations. -/
def without (d : Disk) (drop : Location → Bool) : Disk where
  nodes := d.nodes.filter fun entry => !drop entry.1
  distinct := d.distinct.filter _

/-- A disk without the node at a location. -/
def erase (d : Disk) (l : Location) : Disk := d.without (· == l)

/-- A disk with a node at a location, in place of what stood there. -/
def set (d : Disk) (l : Location) (n : Node) : Disk where
  nodes := (d.erase l).nodes ++ [(l, n)]
  distinct := by
    refine List.pairwise_append.mpr ⟨(d.erase l).distinct, by simp, ?_⟩
    intro a ha b hb
    simp only [erase, without, List.mem_filter] at ha
    simp only [List.mem_singleton] at hb
    subst hb
    simpa using ha.2

/-- The entries of a directory. -/
def names (d : Disk) (l : Location) : List Name :=
  d.nodes.filterMap fun entry =>
    match entry.1 with
    | name :: above => if above = l then some name else none
    | [] => none

/-- Whether the second location is the first or lies below it. -/
def covers (above l : Location) : Bool := above.isSuffixOf l

/-- A disk with another time at a location. -/
def touch (d : Disk) (l : Location) (t : Moment) : Disk :=
  match d.get? l with
  | some n => d.set l (n.withModified t)
  | none => d

/-! ### What stands where after a change -/

theorem get?_without (d : Disk) (drop : Location → Bool) (k : Location) :
    (d.without drop).get? k = if drop k then none else d.get? k := by
  simp only [get?, without]
  induction d.nodes with
  | nil => simp
  | cons entry rest ih =>
      obtain ⟨l, n⟩ := entry
      by_cases hk : k = l
      · subst hk
        cases hd : drop k with
        | true => simpa [hd] using ih
        | false => simp [hd]
      · have hne : (k == l) = false := by simpa using hk
        cases hd : drop l <;> simp [hd, List.lookup_cons, hne, ih]

theorem get?_erase (d : Disk) (l k : Location) :
    (d.erase l).get? k = if k = l then none else d.get? k := by
  rw [erase, get?_without]
  by_cases h : k = l <;> simp [h]

/-- A node is found where it was set, and nothing else is found elsewhere. -/
theorem get?_set (d : Disk) (l k : Location) (n : Node) :
    (d.set l n).get? k = if k = l then some n else d.get? k := by
  have hset : (d.set l n).get? k = ((d.erase l).get? k).or ([(l, n)].lookup k) :=
    List.lookup_append
  rw [hset, get?_erase]
  by_cases h : k = l
  · simp [h]
  · have hne : (k == l) = false := by simpa using h
    simp [h, List.lookup_cons, hne]

theorem get?_touch (d : Disk) (l k : Location) (t : Moment) :
    (d.touch l t).get? k =
      if k = l then (d.get? l).map (Node.withModified t) else d.get? k := by
  unfold touch
  split
  · next n hn => rw [get?_set]; by_cases h : k = l <;> simp [h, hn]
  · next hn => by_cases h : k = l <;> simp [h, hn]

/-- Every node on the list is found at its location. -/
theorem get?_eq_some_iff (d : Disk) (l : Location) (n : Node) :
    d.get? l = some n ↔ (l, n) ∈ d.nodes := by
  obtain ⟨nodes, hdistinct⟩ := d
  simp only [get?]
  induction nodes with
  | nil => simp
  | cons entry rest ih =>
      obtain ⟨k, m⟩ := entry
      obtain ⟨hhead, htail⟩ := List.pairwise_cons.mp hdistinct
      by_cases hl : l = k
      · subst hl
        have habsent : (l, n) ∉ rest := fun hin => hhead _ hin rfl
        simp [habsent, eq_comm]
      · have hne : (l == k) = false := by simpa using hl
        simp [List.lookup_cons, hne, ih htail, hl]

/-- The names in a directory are those under which something stands there. -/
theorem mem_names_iff (d : Disk) (l : Location) (name : Name) :
    name ∈ d.names l ↔ ∃ n, d.get? (name :: l) = some n := by
  simp only [names, List.mem_filterMap, get?_eq_some_iff]
  constructor
  · rintro ⟨⟨k, n⟩, hmem, hname⟩
    cases k with
    | nil => simp at hname
    | cons inner above =>
        by_cases h : above = l
        · simp only [h, if_true, Option.some.injEq] at hname
          subst h hname
          exact ⟨n, hmem⟩
        · simp [h] at hname
  · rintro ⟨n, hmem⟩
    exact ⟨(name :: l, n), hmem, by simp⟩

end Disk

/-! ## Working directories -/

/-- Where a path walk stands: in a directory of the disk, or in a removed one, so many levels
below the last that is left. Removed directories still know their parents. -/
inductive Place where
  | inside (l : Location)
  | removed (base : Location) (levels : Nat)
  deriving DecidableEq

/-- The directory above a place; the root is its own. -/
def Place.above : Place → Place
  | .inside l => .inside l.tail
  | .removed base 0 => .inside base
  | .removed base (levels + 1) => .removed base levels

/-- A place after the tree at a location was removed. -/
def Place.afterRemoval (l : Location) : Place → Place
  | .inside here =>
      if Disk.covers l here then .removed l.tail (here.length - l.length) else .inside here
  | .removed base levels =>
      if Disk.covers l base then .removed l.tail (base.length - l.length + levels + 1)
      else .removed base levels

/-- A disk with its surroundings. -/
structure FileSystem where
  disk : Disk
  workingDir : Place
  now : Moment
  /-- The value of the environment variable that names the resources root. -/
  resources : Option Bytes
  /-- Where the search for the name of the next temporary file starts. -/
  seed : Nat

/-- The absolute path of a location. -/
def Location.path (l : Location) : Path :=
  ⟨match l with
    | [] => [Path.slash]
    | _ => l.reverse.flatMap fun name => Path.slash :: name⟩

end TemplateCache
