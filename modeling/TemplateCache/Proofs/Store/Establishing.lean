import TemplateCache.Proofs.Artifact.Length
import TemplateCache.Proofs.Compiler.Gentle
import TemplateCache.Proofs.Path.Absolute
import TemplateCache.Proofs.Store.Looking
import TemplateCache.Proofs.Store.Reaching

/-!
# What opening a store establishes

Opening a store works with its directory in three ways: by spelling the absolute form, by asking what
that leads to, and by making directories one after another, up to a failure half way. They agree on
every path. When the store opens, its directory is there, nothing else was touched, and to open it
again, by either path, finds all done. The directory is refused for its kind just if something else
is there, and nothing is made then. Main statement: `open_establishes`.
-/

namespace TemplateCache

namespace FileSystem

/-! ## New directories and nothing else -/

/-- A directory is at a location where nothing was. -/
def Made (s s' : FileSystem) (l : Location) : Prop :=
  s.disk.get? l = none ∧ s'.disk.get? l = some (.directory s.now)

/-- The second system is the first with new directories. What was there stays to the last byte, but
that a directory in which one was made has the time of that. -/
structure Extended (s s' : FileSystem) : Prop where
  rest : s' = { s with disk := s'.disk }
  kept : ∀ l n, s.disk.get? l = some n → s'.disk.get? l = some n ∨
    n.isDirectory = true ∧ s'.disk.get? l = some (.directory s.now) ∧ ∃ name, s.Made s' (name :: l)
  added : ∀ l, s.disk.get? l = none → s'.disk.get? l = none ∨ s.Made s' l

namespace Extended

variable {s s' s'' : FileSystem}

theorem refl (s : FileSystem) : s.Extended s where
  rest := rfl
  kept := fun _ _ hn => .inl hn
  added := fun _ hnone => .inl hnone

theorem now_eq (h : s.Extended s') : s'.now = s.now := by rw [h.rest]

/-- What was made stays made. -/
theorem made_trans (h : s.Extended s') (h' : s'.Extended s'') {l : Location} (hmade : s.Made s' l) :
    s.Made s'' l := by
  refine ⟨hmade.1, ?_⟩
  rcases h'.kept l _ hmade.2 with hn | ⟨-, hn, -⟩
  · exact hn
  · rw [hn, h.now_eq]

/-- What is made later was not there at first either. -/
theorem made_of_later (h : s.Extended s') {l : Location} (hmade : s'.Made s'' l) : s.Made s'' l := by
  refine ⟨?_, h.now_eq ▸ hmade.2⟩
  cases hn : s.disk.get? l with
  | none => rfl
  | some n =>
      rcases h.kept l n hn with hn' | ⟨-, hn', -⟩
      · rw [hmade.1] at hn'
        cases hn'
      · rw [hmade.1] at hn'
        cases hn'

theorem trans (h : s.Extended s') (h' : s'.Extended s'') : s.Extended s'' where
  rest := by rw [h'.rest, h.rest]
  kept := by
    intro l n hn
    rcases h.kept l n hn with hn' | ⟨hdir, hn', name, hname⟩
    · rcases h'.kept l n hn' with hn'' | ⟨hdir, hn'', name, hname⟩
      · exact .inl hn''
      · exact .inr ⟨hdir, h.now_eq ▸ hn'', name, h.made_of_later hname⟩
    · -- it has the time of the first half, and the second half is at the same time
      refine .inr ⟨hdir, ?_, name, h.made_trans h' hname⟩
      rcases h'.kept l _ hn' with hn'' | ⟨-, hn'', -⟩
      · exact hn''
      · rw [hn'', h.now_eq]
  added := by
    intro l hnone
    rcases h.added l hnone with hnone' | hmade
    · exact (h'.added l hnone').imp id h.made_of_later
    · exact .inr (h.made_trans h' hmade)

/-- A directory that is made is new, and the one it is made in gets a new time. -/
theorem of_makeDirectory (hs : s.Sound) {p : Path} (h : s.makeDirectory p = .ok s') :
    s.Extended s' := by
  obtain ⟨dir, name, ⟨t, ht⟩, -, hnone, rfl, -⟩ := makeDirectory_eq_ok hs h
  have hmade : s.Made (s.put dir name (.directory s.now)) (name :: dir) := ⟨hnone, get?_put_self⟩
  refine ⟨rfl, fun l n hn => ?_, fun l hl => ?_⟩
  · have hne : l ≠ name :: dir := by
      rintro rfl
      rw [hnone] at hn
      cases hn
    by_cases hdir : l = dir
    · subst hdir
      rw [ht] at hn
      cases hn
      exact .inr ⟨rfl, by rw [get?_put_dir, ht]; rfl, name, hmade⟩
    · exact .inl (by rw [get?_put_of_ne hne hdir, hn])
  · by_cases hl' : l = name :: dir
    · exact .inr (hl' ▸ hmade)
    · have hdir : l ≠ dir := by
        rintro rfl
        rw [ht] at hl
        cases hl
      exact .inl (by rw [get?_put_of_ne hl' hdir, hl])

end Extended

/-- A gentle request makes at most a directory. -/
theorem extended_answer {s : FileSystem} (hs : s.Sound) {r : Request} (h : r.IsGentle) :
    (answer r s).2.Sound ∧ s.Extended (answer r s).2 := by
  cases r with
  | makeDirectory p =>
      unfold answer attempt
      dsimp only
      split
      · rename_i s' hmade
        exact ⟨(makeDirectory_grows hs hmade).sound, .of_makeDirectory hs hmade⟩
      · exact ⟨hs, .refl s⟩
  | remove p => exact h.elim
  | temporary dir data => exact h.elim
  | rename source target => exact h.elim
  | _ => exact ⟨hs, .refl s⟩

end FileSystem

open FileSystem
open ArtifactName.Ingredients (outDisk)

/-- What every gentle answer keeps, a program of gentle requests keeps. -/
theorem FileProgram.Gentle.run_keeps {α : Type} {P : FileSystem → Prop}
    (hkeep : ∀ r s, Request.IsGentle r → P s → P (answer r s).2) {p : FileProgram α}
    (h : p.Gentle) {s : FileSystem} (hs : P s) : P (s.runFiles p).2 := by
  induction p generalizing s with
  | done a => exact hs
  | ask r next ih =>
      have hgentle : r.IsGentle := by
        by_contra hnot
        exact Program.Settles.not_telling h answer s hnot
      exact ih _ (h _).2 (hkeep r s hgentle hs)

namespace Store

theorem extended_openAt {s : FileSystem} (hs : s.Sound) (p : Path) :
    s.Extended (s.runFiles (openAt p)).2 := by
  have hkeep : ∀ r s', Request.IsGentle r → s'.Sound ∧ s.Extended s' →
      (answer r s').2.Sound ∧ s.Extended (answer r s').2 := by
    rintro r s' hr ⟨hsound, hextended⟩
    obtain ⟨hsound', hextended'⟩ := extended_answer hsound hr
    exact ⟨hsound', hextended.trans hextended'⟩
  exact ((gentle_openAt p).run_keeps hkeep ⟨hs, .refl s⟩).2

/-! ## The directory by its path -/

/-- The absolute form of a path is its own absolute form. -/
theorem normal_of_absolute {s : FileSystem} (hs : s.Sound) {p full : Path}
    (h : (s.runFiles (absolute p)).1 = .ok full) : full.Normal := by
  obtain ⟨l, t, ht, rfl⟩ := directory_of_absolute hs h
  have hplain := hs.tree.plain_names ht
  rw [Location.path_eq_along hplain]
  refine Path.normal_absolute (.inl rfl) (fun part hpart => ?_) p
  obtain ⟨n, hn, rfl⟩ := List.mem_map.mp hpart
  exact .inr ⟨n, rfl, hplain n (List.mem_reverse.mp hn)⟩

/-- It is found without the working directory. -/
theorem runFiles_absolute_of_normal {full : Path} (h : full.Normal)
    (habs : full.isAbsolute = true) (s : FileSystem) :
    (s.runFiles (absolute full)).1 = .ok full := by
  have hempty : full.isEmpty = false := by
    simpa [Path.isEmpty] using Path.bytes_ne_nil_of_isAbsolute habs
  unfold absolute
  rw [if_neg (by simp [hempty]), if_pos habs, h.absolute_eq]
  rfl

/-- Where an absolute path leads is the same from every working directory. -/
theorem directoryAt_of_moved {s : FileSystem} {full : Path} (habs : full.isAbsolute = true)
    (h : s.DirectoryAt full) (place : Place) :
    DirectoryAt { s with workingDir := place } full := by
  obtain ⟨l, t, hfollow⟩ := h
  refine ⟨l, t, ?_⟩
  rw [follow_eq_ok_iff, start_of_isAbsolute _ habs] at hfollow ⊢
  exact hfollow

/-! ## Refusing what is no directory -/

/-- Making directories fails in other ways, so it is for its kind alone that a directory is
refused. -/
theorem ensure_eq_notDirectory_iff {s : FileSystem} {full : Path} (habs : full.isAbsolute = true)
    (q : Path) :
    (s.runFiles (ensure full)).1 = .error (.config (.notDirectory q)) ↔
      q = full ∧ ∃ l n, s.follow full = .ok (.node l n) ∧ n.isDirectory = false := by
  constructor
  · intro h
    cases hrun : s.runFiles (ensure full) with
    | mk result after =>
        rw [hrun] at h
        cases h
        cases ensure_course hrun with
        | taken hstatus hdir =>
            obtain ⟨l, n, hfollow, rfl⟩ := follow_of_status habs hstatus
            exact ⟨rfl, l, n, hfollow, hdir⟩
  · rintro ⟨rfl, l, n, hfollow, hdir⟩
    have hkind : n.status.isDirectory = false := hdir
    rw [runFiles_ensure_of_status (status_of_follow hfollow), hkind]
    rfl

/-- A path is refused just if its absolute form leads to something else. -/
theorem openAt_eq_notDirectory_iff (s : FileSystem) (p q : Path) :
    (s.runFiles (openAt p)).1 = .error (.config (.notDirectory q)) ↔
      (s.runFiles (absolute p)).1 = .ok q ∧
        ∃ l n, s.follow q = .ok (.node l n) ∧ n.isDirectory = false := by
  cases hfull : (s.runFiles (absolute p)).1 with
  | error e => simp [runFiles_openAt_of_error hfull]
  | ok full =>
      have hensure := ensure_eq_notDirectory_iff (s := s) (isAbsolute_of_absolute hfull) q
      rw [runFiles_openAt_of_ok hfull, Except.ok.injEq, @eq_comm _ full]
      refine Iff.trans ?_ (hensure.trans ?_)
      · cases (s.runFiles (ensure full)).1 <;> simp [Except.map]
      · exact and_congr_right fun hq => by rw [hq]

theorem openAt_of_notDirectory {s : FileSystem} {p q : Path}
    (h : (s.runFiles (openAt p)).1 = .error (.config (.notDirectory q))) :
    (s.runFiles (openAt p)).2 = s := by
  obtain ⟨hfull, l, n, hfollow, -⟩ := (openAt_eq_notDirectory_iff s p q).mp h
  rw [runFiles_openAt_of_ok hfull, runFiles_ensure_of_status (status_of_follow hfollow)]

/-! ## Opening -/

/-- What it means for a store to be open at a path, for the system before and after. -/
structure Established (p : Path) (s : FileSystem) (store : Store) (s' : FileSystem) : Prop where
  isAbsolute : store.dir.isAbsolute = true
  directory : s'.DirectoryAt store.dir
  extended : s.Extended s'
  again : s'.runFiles (openAt p) = (.ok store, s')
  anywhere : ∀ place, runFiles (openAt store.dir) { s' with workingDir := place } =
    (.ok store, { s' with workingDir := place })

theorem established_openAt {s : FileSystem} (hs : s.Sound) {p : Path} {store : Store}
    (h : (s.runFiles (openAt p)).1 = .ok store) :
    Established p s store (s.runFiles (openAt p)).2 := by
  have hfull := openAt_eq_ok h
  have habs := isAbsolute_of_absolute hfull
  have hthere := (openAt_eq_ok_iff hs hfull).mp h
  have hextended := extended_openAt hs p
  have hworking : (s.runFiles (openAt p)).2.workingDir = s.workingDir := by rw [hextended.rest]
  refine ⟨habs, hthere, hextended, openAt_of_directoryAt ?_ hthere, fun place => ?_⟩
  · rw [absolute_congr hworking, hfull]
  · exact openAt_of_directoryAt
      (runFiles_absolute_of_normal (normal_of_absolute hs hfull) habs _)
      (directoryAt_of_moved habs hthere place)

/-- **Opening a store establishes its directory, or finds something else there and does nothing.** -/
theorem open_establishes {s : FileSystem} (hs : s.Sound) (p : Path) :
    (∀ store, (s.runFiles (openAt p)).1 = .ok store →
      Established p s store (s.runFiles (openAt p)).2) ∧
    ∀ q, ((s.runFiles (openAt p)).1 = .error (.config (.notDirectory q)) ↔
        (s.runFiles (absolute p)).1 = .ok q ∧
          ∃ l n, s.follow q = .ok (.node l n) ∧ n.isDirectory = false) ∧
      ((s.runFiles (openAt p)).1 = .error (.config (.notDirectory q)) →
        (s.runFiles (openAt p)).2 = s) :=
  ⟨fun _ => established_openAt hs,
    fun q => ⟨openAt_eq_notDirectory_iff s p q, openAt_of_notDirectory⟩⟩

/-! ### A way through what is missing -/

/-- In `/out`, which is the working directory, there are a file and a link to nothing. -/
def partialSystem : FileSystem where
  disk := (outDisk.set [Utf8.ofString "file", Utf8.ofString "out"] (.file [1] ⟨1, 0⟩ fileMode)).set
    [Utf8.ofString "link", Utf8.ofString "out"] (.link (.ofString "nothing") ⟨1, 0⟩)
  workingDir := .inside [Utf8.ofString "out"]
  now := ⟨8, 0⟩
  resources := none
  seed := 0

theorem sound_partialSystem : partialSystem.Sound :=
  ⟨Disk.isTree_of_hangs (by decide +kernel) (by decide +kernel), ⟨⟨0, 0⟩, by decide +kernel⟩⟩

/-- A path leads back out of a directory that is missing: both are made, and the path stays as it is
spelled, but for the slashes. The file is refused, and what the link leads to cannot be made. -/
theorem open_partial :
    partialSystem.Sound ∧
    (let opened := partialSystem.runFiles (openAt (.ofString "new/..//./kept//"))
     opened.1 = .ok ⟨.ofString "/out/new/../kept/"⟩ ∧
     opened.2.DirectoryAt (.ofString "/out/new/../kept/") ∧
     opened.2.runFiles (openAt (.ofString "new/..//./kept//")) =
       (.ok ⟨.ofString "/out/new/../kept/"⟩, opened.2)) ∧
    (let refused := partialSystem.runFiles (openAt (.ofString "file"))
     refused.1 = .error (.config (.notDirectory (.ofString "/out/file"))) ∧
     refused.2 = partialSystem) ∧
    (partialSystem.runFiles (openAt (.ofString "link"))).1 =
      .error (.unwritable (.ofString "/out/link") .alreadyThere) := by
  obtain ⟨hopens, -⟩ := open_establishes sound_partialSystem (.ofString "new/..//./kept//")
  obtain ⟨-, hrefuses⟩ := open_establishes sound_partialSystem (.ofString "file")
  have hopened : (partialSystem.runFiles (openAt (.ofString "new/..//./kept//"))).1 =
      .ok ⟨.ofString "/out/new/../kept/"⟩ := by
    decide +kernel
  have hrefused : (partialSystem.runFiles (openAt (.ofString "file"))).1 =
      .error (.config (.notDirectory (.ofString "/out/file"))) := by
    decide +kernel
  have hestablished := hopens _ hopened
  exact ⟨sound_partialSystem, ⟨hopened, hestablished.directory, hestablished.again⟩,
    ⟨hrefused, (hrefuses _).2 hrefused⟩, by decide +kernel⟩

end Store

end TemplateCache
