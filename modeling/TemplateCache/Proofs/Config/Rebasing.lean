import TemplateCache.Config.Load
import TemplateCache.FileSystem.Edit
import TemplateCache.Proofs.Path.Lexical
import TemplateCache.Proofs.Store.Opening
import TemplateCache.Proofs.Text.Utf8

/-!
# Configurations of projects

The configuration of a project is what the text of its file says, with the relative paths taken from
the project's directory. A text that is rejected is rejected in a project for the same reason. The
root and the destination differ in what is left as it is (`Taken`): of the two only the destination
may be empty. Where the directory's path begins at the root, all that was taken does so too, and
there is nothing left to take. Main statement: `load_rebases`.
-/

namespace TemplateCache

namespace Config

/-! ## Taking a path from a directory -/

/-- What becomes of a path, if there is one: some are left as they are, the others are set after a
directory. -/
inductive Taken (dir : Path) (stays : Path → Prop) : Option Path → Option Path → Prop where
  | absent : Taken dir stays .none .none
  | same {p : Path} : stays p → Taken dir stays (some p) (some p)
  | joined {p : Path} : ¬stays p → Taken dir stays (some p) (some (dir.join p))

/-- Roots are left as they are if they are absolute. -/
def RootStays (p : Path) : Prop := p.isAbsolute = true

/-- So are destinations, or if they are empty. -/
def DestinationStays (p : Path) : Prop := p.isEmpty = true ∨ p.isAbsolute = true

section Taken

variable {dir : Path} {stays : Path → Prop} {before after : Option Path}

theorem taken_map {f : Path → Path} (hstays : ∀ p, stays p → f p = p)
    (hjoin : ∀ p, ¬stays p → f p = dir.join p) (o : Option Path) :
    Taken dir stays o (o.map f) := by
  cases o with
  | none => exact .absent
  | some p =>
      rw [Option.map_some]
      by_cases hp : stays p
      · rw [hstays p hp]
        exact .same hp
      · rw [hjoin p hp]
        exact .joined hp

theorem Taken.eq_join {p : Path} (h : Taken dir stays (some p) after) (hp : ¬stays p) :
    after = some (dir.join p) := by
  cases h with
  | same hstays => exact absurd hstays hp
  | joined _ => rfl

/-- A path that was taken from an absolute directory begins with it, or was left as it was. -/
theorem Taken.cases (hdir : dir.isAbsolute = true)
    (hrelative : ∀ p, ¬stays p → p.isAbsolute = false) (h : Taken dir stays before after) :
    ∀ p, after = some p →
      p.isAbsolute = true ∧ p.startsWith dir = true ∨ stays p ∧ before = some p := by
  rintro p rfl
  cases h with
  | same hp => exact .inr ⟨hp, rfl⟩
  | joined hp => exact .inl ⟨Path.isAbsolute_join hdir _, Path.startsWith_join dir (hrelative _ hp)⟩

/-- So it is left as it is by whatever leaves these paths as they are. -/
theorem Taken.map_eq (hdir : dir.isAbsolute = true)
    (hrelative : ∀ p, ¬stays p → p.isAbsolute = false) (h : Taken dir stays before after)
    {f : Path → Path} (hkeeps : ∀ p, stays p ∨ p.isAbsolute = true → f p = p) :
    after.map f = after := by
  have hcases := h.cases hdir hrelative
  cases after with
  | none => rfl
  | some p =>
      obtain ⟨habs, -⟩ | ⟨hstays, -⟩ := hcases p rfl
      · exact congrArg some (hkeeps p (.inr habs))
      · exact congrArg some (hkeeps p (.inl hstays))

end Taken

/-! ## Taking a configuration from a directory -/

section

variable {dir : Path}

theorem relative_of_not_rootStays {p : Path} (h : ¬RootStays p) : p.isAbsolute = false :=
  eq_false_of_ne_true h

theorem relative_of_not_destinationStays {p : Path} (h : ¬DestinationStays p) :
    p.isAbsolute = false := eq_false_of_ne_true (not_or.mp h).2

theorem RootStays.rebase_eq {p : Path} (h : RootStays p) : rebase dir p = p := if_pos h

theorem DestinationStays.rebase_eq {p : Path} (h : DestinationStays p) :
    (if p.isEmpty then p else rebase dir p) = p := by
  split
  · rfl
  · rename_i hfull
    exact if_pos (h.resolve_left hfull)

theorem taken_root (dir : Path) (c : Config) : Taken dir RootStays c.root (rebased dir c).root :=
  taken_map (fun _ => RootStays.rebase_eq) (fun _ h => if_neg h) c.root

theorem taken_destination (dir : Path) (c : Config) :
    Taken dir DestinationStays c.options.destination (rebased dir c).options.destination := by
  refine taken_map (fun _ => DestinationStays.rebase_eq) (fun p h => ?_) c.options.destination
  obtain ⟨hfull, hrelative⟩ := not_or.mp h
  rw [if_neg hfull]
  exact if_neg hrelative

/-- A destination that is no override before is none afterwards. -/
theorem isSome_override?_rebased (dir : Path) (c : Config) :
    (rebased dir c).options.override?.isSome = c.options.override?.isSome := by
  have htaken := taken_destination dir c
  unfold Options.override?
  revert htaken
  generalize (rebased dir c).options.destination = after
  generalize c.options.destination = before
  rintro (_ | _ | h)
  · rfl
  · rfl
  · obtain ⟨hfull, -⟩ := not_or.mp h
    have hfull := eq_false_of_ne_true hfull
    rw [Option.filter_some_pos (by simp [Path.isEmpty_join dir hfull]),
      Option.filter_some_pos (by simp [hfull])]
    rfl

/-- What was taken from an absolute directory has nothing left to take. -/
theorem rebased_rebased (hdir : dir.isAbsolute = true) (c : Config) :
    rebased dir (rebased dir c) = rebased dir c := by
  have hroot : (rebased dir c).root.map (rebase dir) = (rebased dir c).root :=
    (taken_root dir c).map_eq hdir (fun _ => relative_of_not_rootStays)
      fun _ h => RootStays.rebase_eq (h.elim id id)
  have hdestination : (rebased dir c).options.destination.map
      (fun path => if path.isEmpty then path else rebase dir path) =
        (rebased dir c).options.destination :=
    (taken_destination dir c).map_eq hdir (fun _ => relative_of_not_destinationStays)
      fun _ h => DestinationStays.rebase_eq (h.elim id .inr)
  rw [rebased, hroot, hdestination]

/-- What a configuration says after its paths were taken from a directory. -/
structure TakenFrom (dir : Path) (c c' : Config) : Prop where
  subdir : c'.subdir = c.subdir
  extra : c'.options.extra = c.options.extra
  root : Taken dir RootStays c.root c'.root
  destination : Taken dir DestinationStays c.options.destination c'.options.destination
  override : c'.options.override?.isSome = c.options.override?.isSome

/-- What it says where the directory is absolute. -/
structure Settled (dir : Path) (c c' : Config) : Prop where
  root : ∀ p, c'.root = some p →
    p.isAbsolute = true ∧ (p.startsWith dir = true ∨ c.root = some p)
  destination : ∀ p, c'.options.destination = some p → p.isEmpty = false →
    p.isAbsolute = true ∧ (p.startsWith dir = true ∨ c.options.destination = some p)
  /-- There is nothing left to take. -/
  again : rebased dir c' = c'

theorem settled_rebased (hdir : dir.isAbsolute = true) (c : Config) :
    Settled dir c (rebased dir c) where
  root := by
    intro p hp
    obtain ⟨habs, hstarts⟩ | ⟨habs, hbefore⟩ :=
      (taken_root dir c).cases hdir (fun _ => relative_of_not_rootStays) p hp
    · exact ⟨habs, .inl hstarts⟩
    · exact ⟨habs, .inr hbefore⟩
  destination := by
    intro p hp hfull
    obtain ⟨habs, hstarts⟩ | ⟨hstays, hbefore⟩ :=
      (taken_destination dir c).cases hdir (fun _ => relative_of_not_destinationStays) p hp
    · exact ⟨habs, .inl hstarts⟩
    · exact ⟨hstays.resolve_left (by simp [hfull]), .inr hbefore⟩
  again := rebased_rebased hdir c

end

/-! ## Loading -/

section

variable {s : FileSystem} {dir : Path} {text : List Char}

/-- The text of a file is read, and nothing is changed. -/
theorem runFiles_readText {p : Path} (h : s.contents p = .ok (Utf8.encode text)) :
    s.runFiles (readText p) = (.ok text, s) := by
  unfold readText
  rw [FileSystem.runFiles_then, FileSystem.runFiles_ask]
  dsimp only [FileSystem.answer]
  rw [h]
  dsimp only
  rw [Utf8.decode?_encode]
  rfl

/-- Loading is reading the text and taking the paths of the configuration from the directory. -/
theorem runFiles_load (h : s.contents (dir.join fileName) = .ok (Utf8.encode text)) :
    s.runFiles (load dir) = ((ofText text).map (rebased dir), s) := by
  unfold load
  rw [FileSystem.runFiles_then, runFiles_readText h]
  rfl

/-- **The configuration of a project is that of its text, with the relative paths taken from the
project's directory.** Where the text of its file can be read, it is rejected just if the text is,
for the same reason, and nothing is changed. Else the two agree on the directory of the artifacts
and on the extra options, and the paths of the root and of the destination are taken from the
project's directory; if this is absolute, so are they, and there is nothing left to take. -/
theorem load_rebases (h : s.contents (dir.join fileName) = .ok (Utf8.encode text)) :
    (s.runFiles (load dir)).2 = s ∧
    (∀ e, (s.runFiles (load dir)).1 = .error e ↔ ofText text = .error e) ∧
    (∀ c, ofText text = .ok c → ∃ c', (s.runFiles (load dir)).1 = .ok c' ∧ TakenFrom dir c c' ∧
      (dir.isAbsolute = true → Settled dir c c')) := by
  rw [runFiles_load h]
  refine ⟨rfl, fun e => ?_, fun c hc => ⟨rebased dir c, ?_, ?_, fun hdir => ?_⟩⟩
  · cases hc : ofText text with
    | error e' => exact Iff.rfl
    | ok c => exact ⟨fun h => (by cases h), fun h => (by cases h)⟩
  · rw [hc]
    rfl
  · exact ⟨rfl, rfl, taken_root dir c, taken_destination dir c, isSome_override?_rebased dir c⟩
  · exact settled_rebased hdir c

/-! ### A project -/

/-- A configuration that names two relative paths, one of them empty. -/
def projectText : List Char := "[resources]\nroot = \"\"\n[options]\npath = \"o/\"\n".toList

def projectSystem : FileSystem where
  disk := ⟨[([], .directory ⟨0, 0⟩), ([Utf8.ofString "p"], .directory ⟨0, 0⟩),
    ([Utf8.ofString "mailtpl.toml", Utf8.ofString "p"],
      .file (Utf8.encode projectText) ⟨1, 0⟩ 0o644)], by decide⟩
  workingDir := .inside []
  now := ⟨2, 0⟩
  resources := .none
  seed := 0

theorem load_rebases_project :
    ∃ c c', ofText projectText = .ok c ∧
      (projectSystem.runFiles (load (.ofString "/p/"))).1 = .ok c' ∧
      c.root = some (.ofString "") ∧ c'.root = some (.ofString "/p/") ∧
      c.options.destination = some (.ofString "o/") ∧
      c'.options.destination = some (.ofString "/p/o/") ∧ rebased (.ofString "/p/") c' = c' := by
  have hcontents : projectSystem.contents ((Path.ofString "/p/").join fileName) =
      .ok (Utf8.encode projectText) := by decide +kernel
  have htext : ofText projectText =
      .ok ⟨some (.ofString ""), defaultSubdir, ⟨some (.ofString "o/"), []⟩⟩ := by rfl
  have hroot : ¬RootStays (.ofString "") := by
    unfold RootStays
    decide
  have hdestination : ¬DestinationStays (.ofString "o/") := by
    unfold DestinationStays
    decide
  obtain ⟨-, -, hload⟩ := load_rebases hcontents
  obtain ⟨c', hc', htaken, hsettled⟩ := hload _ htext
  refine ⟨_, c', htext, hc', rfl, ?_, rfl, ?_, (hsettled (by decide)).again⟩
  · exact (htaken.root.eq_join hroot).trans (by decide)
  · exact (htaken.destination.eq_join hdestination).trans (by decide)

end

end Config

end TemplateCache
