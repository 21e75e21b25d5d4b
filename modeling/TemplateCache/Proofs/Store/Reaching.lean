import TemplateCache.Proofs.Path.Components
import TemplateCache.Proofs.Store.Opening

/-!
# When a store opens

Making a directory with all those above it can go wrong in many ways, and what an error says
depends on which of the paths it came from. Whether it went wrong can be read off the disk
afterwards: the store is open exactly when its path leads to a directory. Main statement:
`openAt_eq_ok_iff`.

For the one direction it matters that an error is the last word on some path above: none of them
is made after it, and the path itself can only lead to a directory if all those above it do.
-/

namespace TemplateCache

open FileSystem

namespace Disk

theorem start_inside (dir : Location) (p : Path) :
    ∃ l, Place.start (.inside dir) p = .inside l := by
  unfold Place.start
  split
  · exact ⟨[], rfl⟩
  · exact ⟨dir, rfl⟩

/-- A way that starts in a directory of the disk ends in one. -/
theorem Leads.inside {d : Disk} {k j : Nat} {place goal : Place} {segments : List Segment}
    (h : d.Leads k place segments j goal) {l : Location} (hp : place = .inside l) :
    ∃ l', goal = .inside l' := by
  induction h generalizing l with
  | stay => exact ⟨l, hp⟩
  | here _ ih => exact ih hp
  | up _ ih =>
      subst hp
      exact ih rfl
  | into _ _ _ ih => exact ih rfl
  | @through _ _ dir _ _ _ target _ _ _ _ ih =>
      obtain ⟨l', hstart⟩ := start_inside dir target
      exact ih hstart

/-- A walk that starts there does not end in a removed one. -/
theorem Ends.inside {d : Disk} {m : Manner} {k : Nat} {place : Place} {segments : List Segment}
    {spot : Spot} (h : d.Ends m k place segments spot) {l : Location} (hp : place = .inside l)
    (base : Location) (levels : Nat) : spot ≠ .removed base levels := by
  induction h generalizing l with
  | node _ => simp
  | removed => cases hp
  | here _ ih => exact ih hp
  | up _ ih =>
      subst hp
      exact ih rfl
  | vacant _ _ => simp
  | into _ _ _ ih => exact ih rfl
  | @through _ dir _ _ _ target _ _ _ _ _ ih =>
      obtain ⟨l', hstart⟩ := start_inside dir target
      exact ih hstart
  | link _ _ _ => simp
  | leaf _ _ _ => simp

end Disk

namespace FileSystem

/-! ## Paths to directories -/

/-- A path leads to a directory. -/
def DirectoryAt (s : FileSystem) (p : Path) : Prop :=
  ∃ l t, s.follow p = .ok (.node l (.directory t))

theorem start_of_isAbsolute (place : Place) {p : Path} (h : p.isAbsolute = true) :
    place.start p = .inside [] := by
  unfold Place.start
  rw [if_pos h]

theorem directoryAt_iff {s : FileSystem} (hs : s.Sound) {p : Path} :
    s.DirectoryAt p ↔ checkPath p = .ok () ∧ ∃ l, s.Reaches p l := by
  constructor
  · rintro ⟨l, t, hfollow⟩
    exact ⟨(follow_eq_ok_iff.mp hfollow).1, l, reaches_of_follow hfollow⟩
  · rintro ⟨hcheck, l, j, hway⟩
    obtain ⟨t, ht⟩ := Reaches.directory hs ⟨j, hway⟩
    have hends := (leads_strictSegments_iff.mpr hway).ends (m := .follow) (by simp)
      (.inr (by simp)) (.node ht)
    rw [List.append_nil] at hends
    exact ⟨l, t, follow_eq_ok_iff.mpr ⟨hcheck, hends⟩⟩

/-- A path leads to a directory as long as the directories and links stay. -/
theorem DirectoryAt.mono {s s' : FileSystem} (hs : s.Sound) (hs' : s'.Sound)
    (hk : Disk.KeepsWays s.disk s'.disk) (hworking : s'.workingDir = s.workingDir) {p : Path}
    (h : s.DirectoryAt p) : s'.DirectoryAt p := by
  obtain ⟨hcheck, l, hreach⟩ := (directoryAt_iff hs).mp h
  exact (directoryAt_iff hs').mpr ⟨hcheck, l, hreach.mono hk hworking⟩

/-- An absolute path that is followed without an error ends inside the disk. -/
theorem follow_of_status {s : FileSystem} {p : Path} (habs : p.isAbsolute = true)
    {status : Status} (h : s.status p = .ok status) :
    ∃ l n, s.follow p = .ok (.node l n) ∧ status = n.status := by
  obtain ⟨spot, hfollow, hspot⟩ := bind_eq_ok h
  cases spot with
  | vacant dir name => cases hspot
  | removed base levels =>
      obtain ⟨-, hends⟩ := follow_eq_ok_iff.mp hfollow
      exact absurd rfl (hends.inside (start_of_isAbsolute _ habs) base levels)
  | node l n =>
      cases hspot
      exact ⟨l, n, hfollow, rfl⟩

/-- A path that cannot be followed leads to no directory. -/
theorem not_directoryAt_of_status {s : FileSystem} {p : Path} {e : SystemError}
    (h : s.status p = .error e) : ¬s.DirectoryAt p := by
  rintro ⟨l, t, hfollow⟩
  unfold FileSystem.status at h
  rw [hfollow] at h
  cases h

theorem directoryAt_of_status {s : FileSystem} {p : Path} (habs : p.isAbsolute = true)
    {status : Status} (h : s.status p = .ok status) :
    s.DirectoryAt p ↔ status.isDirectory = true := by
  obtain ⟨l, n, hfollow, rfl⟩ := follow_of_status habs h
  constructor
  · rintro ⟨l', t, hfollow'⟩
    rw [hfollow] at hfollow'
    cases hfollow'
    rfl
  · intro hdir
    obtain ⟨t, rfl⟩ := Node.isDirectory_iff.mp hdir
    exact ⟨l, t, hfollow⟩

/-- Where the top of a ladder reaches something, so does every rung. -/
theorem Reaches.of_ladder {s : FileSystem} {p q : Path} {lower : List Path}
    (hladder : Path.Ladder (p :: lower)) {l : Location} (h : s.Reaches p l)
    (hq : q ∈ p :: lower) : ∃ l', s.Reaches q l' := by
  obtain ⟨j, hway⟩ := h
  obtain ⟨rest, hrest⟩ := hladder.segments_isPrefix hq
  rw [start_of_isAbsolute _ (hladder.isAbsolute List.mem_cons_self), ← hrest] at hway
  obtain ⟨i, mid, hfirst, -⟩ := hway.split
  obtain ⟨l', rfl⟩ := hfirst.inside rfl
  exact ⟨l', i, by rwa [start_of_isAbsolute _ (hladder.isAbsolute hq)]⟩

/-- Where it leads to a directory, so does every rung. -/
theorem DirectoryAt.of_ladder {s : FileSystem} (hs : s.Sound) {p : Path} {lower : List Path}
    (hladder : Path.Ladder (p :: lower)) (hcheck : ∀ q ∈ p :: lower, checkPath q = .ok ())
    (h : s.DirectoryAt p) : ∀ q ∈ p :: lower, s.DirectoryAt q := by
  intro q hq
  obtain ⟨-, l, hreach⟩ := (directoryAt_iff hs).mp h
  exact (directoryAt_iff hs).mpr ⟨hcheck q hq, hreach.of_ladder hladder hq⟩

/-- Where a path leads to a directory, so do the paths above it. -/
theorem DirectoryAt.of_mem {s : FileSystem} (hs : s.Sound) {p q : Path}
    (habs : p.isAbsolute = true) (hhere : .here ∉ p.segments) (h : s.DirectoryAt p)
    (hq : q ∈ FileProgram.ancestors p) : s.DirectoryAt q := by
  have hladder := FileProgram.ancestors_ladder habs hhere
  have hcheck : ∀ r ∈ FileProgram.ancestors p, checkPath r = .ok () := fun r hr =>
    FileProgram.checkPath_of_mem_ancestors habs hr ((directoryAt_iff hs).mp h).1
  rw [FileProgram.ancestors_eq habs] at hladder hcheck hq
  exact h.of_ladder hs hladder hcheck q hq

/-- Making a directory makes the path lead to one. -/
theorem directoryAt_of_makeDirectory {s s' : FileSystem} (hs : s.Sound) {p : Path}
    (h : s.makeDirectory p = .ok s') : s'.DirectoryAt p := by
  obtain ⟨spot, hloc, -⟩ := bind_eq_ok h
  obtain ⟨dir, name, hdir, hplain, hnone, rfl, hreach⟩ := makeDirectory_eq_ok hs h
  have hsound : (s.put dir name (.directory s.now)).Sound :=
    hs.of_sameAt hdir hplain (by simp [hnone]) (fun l hl => sameAt_put hdir hl) rfl
  exact (directoryAt_iff hsound).mpr ⟨(locate_eq_ok_iff.mp hloc).1, _, hreach⟩

end FileSystem

namespace FileProgram

/-! ## Making directories -/

theorem runFiles_isDirectory_iff {s : FileSystem} {p : Path} (habs : p.isAbsolute = true) :
    (s.runFiles (isDirectory p)).1 = true ↔ s.DirectoryAt p := by
  rw [runFiles_isDirectory]
  dsimp only
  split
  · rename_i status hstatus
    exact (directoryAt_of_status habs hstatus).symm
  · rename_i e herror
    simpa using not_directoryAt_of_status herror

theorem unlessThere_eq_ok_iff {s : FileSystem} {p : Path} (habs : p.isAbsolute = true)
    (e : SystemError) : (s.runFiles (unlessThere p e)).1 = .ok () ↔ s.DirectoryAt p := by
  rw [← runFiles_isDirectory_iff habs]
  unfold unlessThere
  rw [runFiles_then]
  cases (s.runFiles (isDirectory p)).1 <;> simp

/-- Whether some paths could be made: the first leads to a directory then, or one of them does
not. -/
theorem makeAll_result {s : FileSystem} (hs : s.Sound) {paths : List Path}
    (habs : ∀ p ∈ paths, p.isAbsolute = true) :
    ((s.runFiles (makeAll paths)).1 = .ok () →
      ∀ p ∈ paths.head?, (s.runFiles (makeAll paths)).2.DirectoryAt p) ∧
    ∀ e, (s.runFiles (makeAll paths)).1 = .error e →
      ∃ p ∈ paths, ¬(s.runFiles (makeAll paths)).2.DirectoryAt p := by
  induction paths generalizing s with
  | nil =>
      refine ⟨fun _ p hp => ?_, fun e he => ?_⟩
      · cases hp
      · cases he
  | cons p above ih =>
      have hp := habs p List.mem_cons_self
      simp only [List.head?_cons, Option.mem_some_iff, forall_eq']
      -- where making it fails and it is looked at, the look decides
      have hlook : ∀ {t : FileSystem} {e : SystemError} {result : Except SystemError Unit},
          (t.runFiles (unlessThere p e)).1 = result → (result = .ok () → t.DirectoryAt p) ∧
            ∀ e', result = .error e' → ∃ q ∈ p :: above, ¬t.DirectoryAt q := by
        rintro t e result rfl
        refine ⟨(unlessThere_eq_ok_iff hp e).mp, fun e' he' => ⟨p, List.mem_cons_self, ?_⟩⟩
        intro hthere
        rw [(unlessThere_eq_ok_iff hp e).mpr hthere] at he'
        cases he'
      cases h : s.runFiles (makeAll (p :: above)) with
      | mk result after =>
          dsimp only
          cases makeAll_course h with
          | made hmade =>
              exact ⟨fun _ => directoryAt_of_makeDirectory hs hmade, fun _ he => by cases he⟩
          | looked _ _ hlooked => exact hlook hlooked
          | stopped _ habove =>
              obtain ⟨-, herrors⟩ := ih hs fun q hq => habs q (List.mem_cons_of_mem _ hq)
              rw [habove] at herrors
              obtain ⟨q, hq, hnot⟩ := herrors _ rfl
              exact ⟨fun he => (by cases he), fun _ _ => ⟨q, List.mem_cons_of_mem _ hq, hnot⟩⟩
          | madeAfter _ habove hmade =>
              have hgrows := makeAll_grows hs above
              rw [habove] at hgrows
              exact ⟨fun _ => directoryAt_of_makeDirectory hgrows.sound hmade,
                fun _ he => by cases he⟩
          | lookedAfter _ _ _ hlooked => exact hlook hlooked

end FileProgram

namespace Store

/-! ## Opening -/

/-- The absolute form of a directory is taken from the root if the directory is absolute, and from
the working directory if it is not. -/
theorem eq_of_absolute {s : FileSystem} {dir full : Path}
    (h : (s.runFiles (absolute dir)).1 = .ok full) :
    dir.isEmpty = false ∧ ∃ l, full = Path.absolute (Location.path l) dir ∧
      (dir.isAbsolute = true ∧ l = [] ∨ dir.isAbsolute = false ∧ s.workingDir = .inside l) := by
  unfold absolute at h
  split at h
  · cases h
  · rename_i hempty
    refine ⟨eq_false_of_ne_true hempty, ?_⟩
    split at h
    · rename_i habs
      cases h
      exact ⟨[], Path.absolute_of_isAbsolute habs _ _, .inl ⟨habs, rfl⟩⟩
    · rename_i hrel
      rw [runFiles_then, runFiles_ask] at h
      dsimp only [answer] at h
      unfold FileSystem.workingDirectory at h
      cases hworking : s.workingDir with
      | removed base levels =>
          rw [hworking] at h
          cases h
      | inside l =>
          rw [hworking] at h
          cases h
          exact ⟨l, rfl, .inr ⟨eq_false_of_ne_true hrel, rfl⟩⟩

/-- Either of them stands. -/
theorem directory_of_absolute {s : FileSystem} (hs : s.Sound) {dir full : Path}
    (h : (s.runFiles (absolute dir)).1 = .ok full) :
    ∃ l t, s.disk.get? l = some (.directory t) ∧ full = Path.absolute (Location.path l) dir := by
  obtain ⟨-, l, rfl, ⟨-, rfl⟩ | ⟨-, hworking⟩⟩ := eq_of_absolute h
  · obtain ⟨t, ht⟩ := hs.tree.root
    exact ⟨[], t, ht, rfl⟩
  · have hstands := hs.working
    rw [hworking] at hstands
    obtain ⟨t, ht⟩ := hstands
    exact ⟨l, t, ht, rfl⟩

/-- What is opened is an absolute path without `.`. -/
theorem absolute_eq_ok {s : FileSystem} (hs : s.Sound) {dir full : Path}
    (h : (s.runFiles (absolute dir)).1 = .ok full) :
    full.isAbsolute = true ∧ .here ∉ full.segments := by
  obtain ⟨l, t, ht, rfl⟩ := directory_of_absolute hs h
  refine Path.segments_absolute (Location.isAbsolute_path l) ?_
  rw [Location.segments_path (hs.tree.plain_names ht)]
  simp

/-- What the absolute form of a directory says: the same as the directory, if that is absolute, and
else what the working directory says and then what moves in the directory. -/
theorem components_of_absolute {s : FileSystem} {dir full : Path}
    (h : (s.runFiles (absolute dir)).1 = .ok full) :
    (dir.isAbsolute = true ∧ full.components = dir.components) ∨
      (dir.isAbsolute = false ∧ dir.bytes ≠ [] ∧ ∃ workingDir,
        s.workingDirectory = .ok workingDir ∧ workingDir.isAbsolute = true ∧
        full.components =
          workingDir.components ++ dir.components.filter Path.Component.moves) := by
  obtain ⟨hempty, l, rfl, ⟨habs, -⟩ | ⟨hrel, hworking⟩⟩ := eq_of_absolute h
  · refine .inl ⟨habs, Path.components_absolute_of_isAbsolute ?_ habs⟩
    exact Path.bytes_ne_nil_of_isAbsolute (Location.isAbsolute_path l)
  · have hwd := Location.isAbsolute_path l
    refine .inr ⟨hrel, fun hnil => ?_, _, ?_, hwd, ?_⟩
    · simp [Path.isEmpty, hnil] at hempty
    · unfold FileSystem.workingDirectory
      rw [hworking]
    · rw [Path.components_absolute (Path.bytes_ne_nil_of_isAbsolute hwd), if_neg (by simp [hrel])]

/-- It begins at the root, whatever the working directory is. -/
theorem isAbsolute_of_absolute {s : FileSystem} {dir full : Path}
    (h : (s.runFiles (absolute dir)).1 = .ok full) : full.isAbsolute = true := by
  rw [Path.isAbsolute_iff]
  obtain ⟨habs, hparts⟩ | ⟨-, -, workingDir, -, habs, hparts⟩ := components_of_absolute h
  · rw [hparts]
    exact Path.isAbsolute_iff.mp habs
  · rw [hparts, Path.components_of_isAbsolute habs]
    rfl

theorem ensure_eq_ok_iff {s : FileSystem} (hs : s.Sound) {full : Path}
    (habs : full.isAbsolute = true) (hhere : .here ∉ full.segments) :
    (s.runFiles (ensure full)).1 = .ok () ↔ (s.runFiles (ensure full)).2.DirectoryAt full := by
  have hladder := FileProgram.ancestors_ladder habs hhere
  have hall : ∀ p ∈ FileProgram.ancestors full, p.isAbsolute = true :=
    fun p hp => hladder.isAbsolute hp
  obtain ⟨hok, herror⟩ := FileProgram.makeAll_result hs hall
  have hgrows := FileProgram.makeAll_grows hs (FileProgram.ancestors full)
  cases h : s.runFiles (ensure full) with
  | mk result after =>
      dsimp only
      cases ensure_course h with
      | there hstatus hdir => simpa using (directoryAt_of_status habs hstatus).mpr hdir
      | taken hstatus hdir =>
          have hnot : ¬s.DirectoryAt full := by
            rw [directoryAt_of_status habs hstatus, hdir]
            exact Bool.false_ne_true
          simpa using hnot
      | unseen hstatus _ => simpa using not_directoryAt_of_status hstatus
      | made _ hmade =>
          unfold FileProgram.makeDirectories at hmade
          rw [hmade] at hok
          simpa using hok rfl full (by rw [FileProgram.ancestors_eq habs]; rfl)
      | unmade _ hmade =>
          unfold FileProgram.makeDirectories at hmade
          rw [hmade] at herror hgrows
          obtain ⟨q, hq, hnot⟩ := herror _ rfl
          simpa using fun hthere => hnot (DirectoryAt.of_mem hgrows.sound habs hhere hthere hq)

/-- Where the directory is there already, opening a store in it changes nothing. -/
theorem openAt_of_directoryAt {s : FileSystem} {dir full : Path}
    (hfull : (s.runFiles (absolute dir)).1 = .ok full) (hthere : s.DirectoryAt full) :
    s.runFiles (openAt dir) = (.ok ⟨full⟩, s) := by
  obtain ⟨l, t, hfollow⟩ := hthere
  rw [runFiles_openAt_of_ok hfull, runFiles_ensure_of_status (status_of_follow hfollow)]
  rfl

/-- A store opens exactly when its path leads to a directory afterwards. -/
theorem openAt_eq_ok_iff {s : FileSystem} (hs : s.Sound) {dir full : Path}
    (hfull : (s.runFiles (absolute dir)).1 = .ok full) :
    (s.runFiles (openAt dir)).1 = .ok ⟨full⟩ ↔ (s.runFiles (openAt dir)).2.DirectoryAt full := by
  obtain ⟨habs, hhere⟩ := absolute_eq_ok hs hfull
  have hensure := ensure_eq_ok_iff hs habs hhere
  rw [runFiles_openAt_of_ok hfull]
  cases hmade : (s.runFiles (ensure full)).1 with
  | ok u => simpa [hmade, Except.map] using hensure
  | error e => simpa [hmade, Except.map] using hensure

end Store

end TemplateCache
