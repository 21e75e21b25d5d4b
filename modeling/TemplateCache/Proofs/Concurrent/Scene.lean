import TemplateCache.Proofs.Artifact.Siblings
import TemplateCache.Proofs.Compiler.Frame
import TemplateCache.Proofs.Compiler.Ledger
import TemplateCache.Proofs.Concurrent.Shared
import TemplateCache.Proofs.FileSystem.Reading
import TemplateCache.Proofs.Store.Stages

/-!
# Calls for one artifact

A *scene* is all that a call finds out on its way to the artifact, on files where it succeeds. Other
calls with the same arguments find out the same, so the scene is what they have in common, and what
their pact is about.

Every location has one of four *fates* by the time that the directory is open: it is as it was when
the scene's own call opened it, or it is the artifact, or a removed sibling of it, or a temporary
file. Before that there is a stage of making directories. `Scene.Fine` says this, together with what
is known about the callers from notes on them: which temporary file a caller has, whether it wrote
the artifact, and what it removed.
-/

namespace TemplateCache

open FileSystem

/-- What a call finds out that comes to have its artifact on disk. -/
structure Scene where
  compiler : Compiler
  source : Path
  options : Options
  start : FileSystem
  held : Option Path
  sound : start.Sound
  /-- The source, and where it is. -/
  origin : Location
  node : Node
  follow : start.follow source = .ok (.node origin node)
  leaf : node.leadsOn = false
  contents : Bytes
  read : start.contents source = .ok contents
  canonical : start.canonical source = .ok (Location.path origin)
  /-- The directory, as it was given and as an absolute path. -/
  dest : Path
  destination : compiler.destinationFrom options ⟨start, held, []⟩ = .ok dest
  store : Store
  absolute : (start.runFiles (Store.absolute dest)).1 = .ok store.dir
  opened : FileSystem
  raised : Store.Raised start (FileProgram.ancestors store.dir) opened
  check : checkPath store.dir = .ok ()
  dir : Location
  reaches : opened.Reaches store.dir dir
  ask : store.CanAsk (compiler.artifactName options (Location.path origin) contents)
  /-- Whatever has a sibling's name, or the artifact's, is a regular file. -/
  regular : ∀ text n,
    (compiler.artifactName options (Location.path origin) contents).isSibling text = true →
    opened.disk.get? (Utf8.encode text :: dir) = some n → ∃ data t mode, n = .file data t mode
  /-- The artifact is there, or the transform makes it. -/
  out : Bytes
  outcome : (∃ n, opened.disk.get? ((compiler.artifactName options (Location.path origin)
      contents).entryName :: dir) = some n) ∨
    compiler.transform.apply contents options = .ok out

/-- What is noted about a caller. -/
structure Note where
  /-- The number of its temporary file, as long as it has one. -/
  temporary : Option Nat
  /-- The number of the one that it had or has. -/
  number : Option Nat
  wrote : Bool
  removed : List Name

/-- Nothing to note. -/
def Note.none : Note := ⟨.none, .none, false, []⟩

/-- A shared machine with a note about each caller. -/
structure Noted (ι : Type) where
  shared : Shared ι
  notes : ι → Note

namespace Noted

variable {ι : Type} [DecidableEq ι]

/-- A caller takes a turn that changes files, and a new note is made about it. -/
def turn (w : Noted ι) (i : ι) (s : FileSystem) (note : Note) : Noted ι :=
  ⟨{ w.shared with system := s }, Function.update w.notes i note⟩

@[simp] theorem turn_system (w : Noted ι) (i : ι) (s : FileSystem) (note : Note) :
    (w.turn i s note).shared.system = s := rfl

@[simp] theorem turn_events (w : Noted ι) (i : ι) (s : FileSystem) (note : Note) :
    (w.turn i s note).shared.events = w.shared.events := rfl

@[simp] theorem notes_turn_self (w : Noted ι) (i : ι) (s : FileSystem) (note : Note) :
    (w.turn i s note).notes i = note := Function.update_self ..

theorem notes_turn_of_ne (w : Noted ι) {i j : ι} (h : j ≠ i) (s : FileSystem) (note : Note) :
    (w.turn i s note).notes j = w.notes j := Function.update_of_ne h ..

/-- What holds of the new note and of the old ones on the others holds after a turn. -/
theorem forall_notes_turn {w : Noted ι} {i : ι} {s : FileSystem} {note : Note}
    (P : ι → Note → Prop) (hnew : P i note) (hothers : ∀ j, j ≠ i → P j (w.notes j)) :
    ∀ j, P j ((w.turn i s note).notes j) :=
  (Function.forall_update_iff w.notes P).mpr ⟨hnew, hothers⟩

/-- What holds of one note at most still does after a turn if the new note shares it with no other. -/
theorem eq_of_turn {w : Noted ι} {i : ι} {s : FileSystem} {note : Note} (P : Note → Prop)
    (hbefore : ∀ j j', P (w.notes j) → P (w.notes j') → j = j')
    (hnew : ∀ j, j ≠ i → P (w.notes j) → ¬P note) {j j' : ι}
    (hj : P ((w.turn i s note).notes j)) (hj' : P ((w.turn i s note).notes j')) : j = j' := by
  by_cases hji : j = i <;> by_cases hji' : j' = i
  · rw [hji, hji']
  · rw [hji, notes_turn_self] at hj
    rw [notes_turn_of_ne _ hji'] at hj'
    exact absurd hj (hnew j' hji' hj')
  · rw [hji', notes_turn_self] at hj'
    rw [notes_turn_of_ne _ hji] at hj
    exact absurd hj' (hnew j hji hj)
  · rw [notes_turn_of_ne _ hji] at hj
    rw [notes_turn_of_ne _ hji'] at hj'
    exact hbefore j j' hj hj'

end Noted

namespace Scene

variable {ι : Type} (sc : Scene)

/-- The name of the artifact. -/
def name : ArtifactName :=
  sc.compiler.artifactName sc.options (Location.path sc.origin) sc.contents

/-- The location of the artifact. -/
def artifact : Location := sc.name.entryName :: sc.dir

/-- The path of the artifact, which is what a call answers. -/
def path : Path := sc.store.artifactPath sc.name

/-- The time of the source, as far as it can be asked for. -/
def time : Option Moment :=
  match sc.start.status (Location.path sc.origin) with
  | .ok status => some status.modified
  | .error _ => none

/-- A sibling that is older than the source, where the artifact has to be made. -/
structure Expired (x : Name) : Prop where
  other : Store.isOther sc.name x = true
  absent : sc.opened.disk.get? sc.artifact = none
  old : ∃ data t mode time, sc.opened.disk.get? (x :: sc.dir) = some (.file data t mode) ∧
    sc.time = some time ∧ t.before time = true

/-- A temporary file. -/
def temporary (k : Nat) : Location := temporaryName k :: sc.dir

/-- The numbers of temporary files stay small when so many more are made. -/
def Room (n : Nat) : Prop :=
  ∃ used, (∀ numbers : List Nat, numbers.Nodup →
    (∀ k ∈ numbers, sc.opened.disk.get? (sc.temporary k) ≠ none) → numbers.length ≤ used) ∧
    sc.start.seed + used + n < temporaryLimit ArtifactName.leastLength

/-! ## What may have become of the files -/

/-- What may have become of a location since the directory was opened. -/
inductive Fate (w : Noted ι) (l : Location) : Prop where
  | same : Disk.SameAt sc.opened.disk w.shared.system.disk l → Fate w l
  | written {t : Moment} : l = sc.artifact → sc.opened.disk.get? l = none →
      w.shared.system.disk.get? l = some (.file sc.out t fileMode) → Fate w l
  | removed {x : Name} {i : ι} : l = x :: sc.dir → sc.Expired x → x ∈ (w.notes i).removed →
      w.shared.system.disk.get? l = none → Fate w l
  | temporary {k : Nat} {i : ι} : l = sc.temporary k → (w.notes i).temporary = some k → Fate w l

/-- The callers are at work in the open directory. -/
structure Working (w : Noted ι) : Prop where
  fate : ∀ l, sc.Fate w l
  /-- A temporary file is new and holds all of the artifact. -/
  temporary : ∀ i k, (w.notes i).temporary = some k → (w.notes i).number = some k ∧
    sc.opened.disk.get? (sc.temporary k) = none ∧
    ∃ t, w.shared.system.disk.get? (sc.temporary k) = some (.file sc.out t fileMode)
  apart : ∀ i j k, (w.notes i).temporary = some k → (w.notes j).temporary = some k → i = j
  /-- What was removed is gone, and was removed once. -/
  gone : ∀ i, ∀ x ∈ (w.notes i).removed,
    sc.Expired x ∧ w.shared.system.disk.get? (x :: sc.dir) = none
  once : ∀ i, (w.notes i).removed.Nodup
  disjoint : ∀ i j x, x ∈ (w.notes i).removed → x ∈ (w.notes j).removed → i = j
  wrote : (∃ i, (w.notes i).wrote = true) ∨
    Disk.SameAt sc.opened.disk w.shared.system.disk sc.artifact

/-- The callers are still making the directory. -/
structure Opening (w : Noted ι) : Prop where
  stage : Store.Stage sc.start (FileProgram.ancestors sc.store.dir) w.shared.system
  idle : ∀ i, w.notes i = .none

/-- What is true at any time. -/
structure Fine (w : Noted ι) : Prop where
  sound : w.shared.system.Sound
  workingDir : w.shared.system.workingDir = sc.start.workingDir
  resources : w.shared.system.resources = sc.start.resources
  held : w.shared.held = sc.held ∨ w.shared.held = some sc.dest
  /-- The numbers that were passed are in use, or were used by a caller. -/
  seed : sc.start.seed ≤ w.shared.system.seed
  numbers : ∀ k, sc.start.seed ≤ k → k < w.shared.system.seed →
    sc.opened.disk.get? (sc.temporary k) ≠ none ∨ ∃ i, (w.notes i).number = some k
  phase : sc.Opening w ∨ sc.Working w

/-- What any step may do. -/
structure Seen (w w' : Noted ι) : Prop where
  ways : Disk.KeepsWays w.shared.system.disk w'.shared.system.disk
  artifact : ∀ data t mode,
    w.shared.system.disk.get? sc.artifact = some (.file data t mode) →
    ∃ t', w'.shared.system.disk.get? sc.artifact = some (.file data t' mode)
  removed : ∀ x, sc.Expired x → w.shared.system.disk.get? (x :: sc.dir) = none →
    w'.shared.system.disk.get? (x :: sc.dir) = none

/-- What the callers rely on. -/
def pact (ι : Type) : Pact ι (Shared ι) (Noted ι) where
  state := Noted.shared
  Fine := sc.Fine
  Seen := sc.Seen
  Spared := fun i w w' => w'.notes i = w.notes i ∧ w'.shared.events i = w.shared.events i
  seen_refl := fun w => ⟨fun _ n hn _ => ⟨n, hn, .refl n⟩, fun _ t _ h => ⟨t, h⟩, fun _ _ h => h⟩
  seen_trans := by
    intro w w' w'' h h'
    refine ⟨h.ways.trans h'.ways, fun data t mode hfile => ?_, fun x hx hnone => ?_⟩
    · obtain ⟨t', hfile'⟩ := h.artifact data t mode hfile
      exact h'.artifact data t' mode hfile'
    · exact h'.removed x hx (h.removed x hx hnone)
  spared_refl := fun _ _ => ⟨rfl, rfl⟩
  spared_trans := fun h h' => ⟨h'.1.trans h.1, h'.2.trans h.2⟩

variable {sc}

/-! ## Names -/

theorem isWorded_name : sc.name.IsWorded := ArtifactName.isWorded_forSource ..

theorem isProper_name : sc.name.IsProper := ArtifactName.isProper_forSource ..

theorem askable_name : Askable sc.store.dir sc.name.entryName := sc.ask.askable

theorem Expired.askable {x : Name} (h : sc.Expired x) : Askable sc.store.dir x :=
  sc.ask.askable_of_isOther h.other

theorem Expired.ne_entryName {x : Name} (h : sc.Expired x) : x ≠ sc.name.entryName := by
  rintro rfl
  exact Store.not_isOther_self _ h.other

theorem Expired.ne_temporaryName {x : Name} (h : sc.Expired x) (k : Nat) :
    x ≠ temporaryName k :=
  (ArtifactName.reserved_ne_temporaryName (ArtifactName.reserved_of_isOther h.other) k).symm

theorem artifact_ne_temporary (k : Nat) : sc.artifact ≠ sc.temporary k := by
  intro h
  injection h with h _
  exact isProper_name.notTemporary k h.symm

theorem temporary_injective {j k : Nat} (h : sc.temporary j = sc.temporary k) : j = k :=
  temporaryName_injective (List.cons.inj h).1

/-- The source is not among what is written or removed. -/
theorem origin_ne_of_isSibling {text : List Char} (h : sc.name.isSibling text = true) :
    sc.origin ≠ Utf8.encode text :: sc.dir := ArtifactName.ne_cons_of_isSibling h _

theorem Expired.ne_origin {x : Name} (h : sc.Expired x) : sc.origin ≠ x :: sc.dir := by
  obtain ⟨text, rfl, -, hsibling⟩ := ArtifactName.spelt_of_isOther isWorded_name h.other
  exact origin_ne_of_isSibling hsibling

/-! ## The files of the scene -/

theorem sound_opened : sc.opened.Sound := sc.raised.sound sc.sound

theorem get?_origin : sc.start.disk.get? sc.origin = some sc.node :=
  (follow_eq_ok_iff.mp sc.follow).2.get?

theorem isDirectory_node : sc.node.isDirectory = false := Node.isDirectory_eq_false sc.leaf

theorem get?_origin_opened : sc.opened.disk.get? sc.origin = some sc.node := by
  obtain ⟨n, hn, hlike⟩ := sc.raised.kept sc.sound get?_origin
  rw [hn, hlike.eq_of_not_directory isDirectory_node]

/-- Where the artifact goes there is a regular file or nothing. -/
theorem artifact_opened (sc : Scene) : sc.opened.disk.get? sc.artifact = none ∨
    ∃ data t mode, sc.opened.disk.get? sc.artifact = some (.file data t mode) := by
  cases hn : sc.opened.disk.get? sc.artifact with
  | none => exact .inl rfl
  | some n =>
      obtain ⟨data, t, mode, rfl⟩ := sc.regular sc.name.fileName n
        ((ArtifactName.isSibling_fileName_iff isWorded_name isWorded_name).mpr ⟨rfl, rfl⟩) hn
      exact .inr ⟨data, t, mode, rfl⟩

end Scene

end TemplateCache
