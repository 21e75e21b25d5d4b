import TemplateCache.Proofs.FileSystem.Change
import TemplateCache.FileSystem.Edit
import TemplateCache.Store

/-!
# Opening a store

Opening a store asks for the kind of its directory and, when there is nothing, makes it with all
those above it. Nothing else happens: whatever was there stays, and what is new are directories,
each of them reached by one of the paths that were asked to be made. `FileSystem.Grows` says this,
for runs that succeed and for runs that do not. Main statement: `openAt_grows`.

Making directories and making sure of one can end in five ways each. They are listed once
(`FileProgram.MakeCourse`, `Store.EnsureCourse`) and read off the lists from then on.
-/

namespace TemplateCache

namespace FileSystem

/-! ## Running programs on files -/

@[simp] theorem runFiles_pure {α : Type} (a : α) (s : FileSystem) :
    s.runFiles (pure a) = (a, s) := rfl

theorem runFiles_ask (r : Request) (s : FileSystem) :
    s.runFiles (FileProgram.ask r) = answer r s := rfl

@[simp] theorem runFiles_then {α β : Type} (p : FileProgram α) (k : α → FileProgram β)
    (s : FileSystem) :
    s.runFiles (p >>= k) = (s.runFiles p).2.runFiles (k (s.runFiles p).1) :=
  Program.run_then _ p k s

/-! ## Growing -/

/-- Where everything is kept, a path that led to a regular file still does. -/
theorem status_isFile_of_kept {s s' : FileSystem}
    (hkept : ∀ l n, s.disk.get? l = some n → ∃ n', s'.disk.get? l = some n' ∧ n.Like n')
    (hworking : s'.workingDir = s.workingDir) {p : Path} {status : Status}
    (hstatus : s.status p = .ok status) (hfile : status.isFile = true) :
    s'.status p = .ok status := by
  unfold FileSystem.status at hstatus ⊢
  obtain ⟨spot, hfollow, hspot⟩ := bind_eq_ok hstatus
  cases spot with
  | removed base levels => cases hspot; cases hfile
  | vacant dir name => cases hspot
  | node l n =>
      cases hspot
      obtain ⟨hcheck, hends⟩ := follow_eq_ok_iff.mp hfollow
      obtain ⟨n', hn', hlike⟩ := hkept l n hends.get?
      -- a regular file is no directory, so not even its time is another one
      have hdir : n.isDirectory = false := by cases n <;> first | rfl | cases hfile
      cases hlike.eq_of_not_directory hdir
      have hfollow' : s'.follow p = .ok (.node l n) := by
        refine follow_eq_ok_iff.mpr ⟨hcheck, ?_⟩
        rw [hworking]
        exact hends.mono (fun l n hn _ => hkept l n hn) hn' (.refl n)
      rw [hfollow']
      rfl

/-- The second system is the first with new directories on the way to some paths. -/
structure Grows (paths : List Path) (s s' : FileSystem) : Prop where
  sound : s'.Sound
  kept : ∀ l n, s.disk.get? l = some n → ∃ n', s'.disk.get? l = some n' ∧ n.Like n'
  added : ∀ l n, s.disk.get? l = none → s'.disk.get? l = some n →
    n.isDirectory = true ∧ ∃ p ∈ paths, s'.Reaches p l
  setting : SameSetting s s'

namespace Grows

variable {paths : List Path} {s s' s'' : FileSystem}

theorem refl (hs : s.Sound) : Grows paths s s where
  sound := hs
  kept := fun _ n h => ⟨n, h, .refl n⟩
  added := fun l n h h' => by rw [h] at h'; cases h'
  setting := .refl s

/-- What is there later and is no directory was there before. -/
theorem eq_some_back (h : Grows paths s s') {l : Location} {n : Node}
    (hn : s'.disk.get? l = some n) (hdir : n.isDirectory = false) : s.disk.get? l = some n := by
  cases hbefore : s.disk.get? l with
  | none =>
      rw [(h.added l n hbefore hn).1] at hdir
      cases hdir
  | some m =>
      obtain ⟨n', hn', hlike⟩ := h.kept l m hbefore
      rw [hn] at hn'
      cases hn'
      rw [hlike.symm.eq_of_not_directory hdir]

theorem eq_some (h : Grows paths s s') {l : Location} {n : Node} (hn : s.disk.get? l = some n)
    (hdir : n.isDirectory = false) : s'.disk.get? l = some n := by
  obtain ⟨n', hn', hlike⟩ := h.kept l n hn
  rw [hn', hlike.eq_of_not_directory hdir]

theorem keepsWays (h : Grows paths s s') : Disk.KeepsWays s.disk s'.disk :=
  fun l n hn _ => h.kept l n hn

theorem reaches (h : Grows paths s s') {p : Path} {l : Location} (hp : s.Reaches p l) :
    s'.Reaches p l := hp.mono h.keepsWays h.setting.workingDir

theorem trans (h : Grows paths s s') (h' : Grows paths s' s'') : Grows paths s s'' where
  sound := h'.sound
  kept := by
    intro l n hn
    obtain ⟨n', hn', hlike⟩ := h.kept l n hn
    obtain ⟨n'', hn'', hlike'⟩ := h'.kept l n' hn'
    exact ⟨n'', hn'', hlike.trans hlike'⟩
  added := by
    intro l n hnone hn
    cases hmid : s'.disk.get? l with
    | none => exact h'.added l n hmid hn
    | some m =>
        -- made in the first half, and kept in the second
        obtain ⟨hdir, p, hp, hreach⟩ := h.added l m hnone hmid
        obtain ⟨n', hn', hlike⟩ := h'.kept l m hmid
        rw [hn] at hn'
        cases hn'
        exact ⟨hlike.isDirectory_eq ▸ hdir, p, hp, h'.reaches hreach⟩
  setting := h.setting.trans h'.setting

/-- A path that led to a regular file does so in the open store's system. -/
theorem status_isFile (h : Grows paths s s')
    {p : Path} {status : Status} (hstatus : s.status p = .ok status)
    (hfile : status.isFile = true) : s'.status p = .ok status :=
  status_isFile_of_kept h.kept h.setting.workingDir hstatus hfile

theorem mono (h : Grows paths s s') {more : List Path} (hsub : paths ⊆ more) :
    Grows more s s' where
  sound := h.sound
  kept := h.kept
  added := by
    intro l n hnone hn
    obtain ⟨hdir, p, hp, hreach⟩ := h.added l n hnone hn
    exact ⟨hdir, p, hsub hp, hreach⟩
  setting := h.setting

end Grows

/-- A directory that is made is the only thing that is new. -/
theorem makeDirectory_grows {s s' : FileSystem} (hs : s.Sound) {p : Path}
    (h : s.makeDirectory p = .ok s') : Grows [p] s s' := by
  obtain ⟨dir, name, hdir, hplain, hnone, rfl, hreach⟩ := makeDirectory_eq_ok hs h
  have hother : ∀ l, l ≠ name :: dir →
      Disk.SameAt s.disk (s.put dir name (.directory s.now)).disk l := fun l hl =>
    sameAt_put hdir hl
  refine ⟨hs.of_sameAt hdir hplain (by simp [hnone]) hother rfl, ?_, ?_, ⟨rfl, rfl, rfl⟩⟩
  · intro l n hn
    have hne : l ≠ name :: dir := by
      rintro rfl
      rw [hnone] at hn
      cases hn
    exact (hother l hne).some hn
  · intro l n hl hn
    have heq : l = name :: dir := by
      by_contra hne
      rw [(hother l hne).none_iff.mp hl] at hn
      cases hn
    subst heq
    rw [get?_put_self] at hn
    cases hn
    exact ⟨rfl, p, List.mem_singleton_self p, hreach⟩

end FileSystem

open FileSystem

namespace FileProgram

/-! ## Making directories -/

@[simp] theorem runFiles_isFile (s : FileSystem) (p : Path) :
    s.runFiles (isFile p) = ((match s.status p with
      | .ok status => status.isFile
      | .error _ => false), s) := by
  unfold isFile
  rw [runFiles_then, runFiles_ask]
  dsimp only [answer]
  cases s.status p <;> rfl

@[simp] theorem runFiles_isDirectory (s : FileSystem) (p : Path) :
    s.runFiles (isDirectory p) = ((match s.status p with
      | .ok status => status.isDirectory
      | .error _ => false), s) := by
  unfold isDirectory
  rw [runFiles_then, runFiles_ask]
  dsimp only [answer]
  cases s.status p <;> rfl

theorem runFiles_unlessThere (s : FileSystem) (p : Path) (e : SystemError) :
    (s.runFiles (unlessThere p e)).2 = s := by
  unfold unlessThere
  rw [runFiles_then, runFiles_isDirectory]
  dsimp only
  split <;> split <;> rfl

/-- The ways in which making directories can end, from a first one on, with its result and the
files after it. Those above it are made only when something is missing. -/
inductive MakeCourse (s : FileSystem) (p : Path) (above : List Path) :
    Except SystemError Unit → FileSystem → Prop where
  | made {t : FileSystem} : s.makeDirectory p = .ok t → MakeCourse s p above (.ok ()) t
  | looked {e : SystemError} {result : Except SystemError Unit} :
      s.makeDirectory p = .error e → e ≠ .missing → (s.runFiles (unlessThere p e)).1 = result →
      MakeCourse s p above result s
  | stopped {e : SystemError} {t : FileSystem} :
      s.makeDirectory p = .error .missing → s.runFiles (makeAll above) = (.error e, t) →
      MakeCourse s p above (.error e) t
  | madeAfter {t t' : FileSystem} :
      s.makeDirectory p = .error .missing → s.runFiles (makeAll above) = (.ok (), t) →
      t.makeDirectory p = .ok t' → MakeCourse s p above (.ok ()) t'
  | lookedAfter {e : SystemError} {t : FileSystem} {result : Except SystemError Unit} :
      s.makeDirectory p = .error .missing → s.runFiles (makeAll above) = (.ok (), t) →
      t.makeDirectory p = .error e → (t.runFiles (unlessThere p e)).1 = result →
      MakeCourse s p above result t

theorem makeAll_course {s after : FileSystem} {p : Path} {above : List Path}
    {result : Except SystemError Unit} (h : s.runFiles (makeAll (p :: above)) = (result, after)) :
    MakeCourse s p above result after := by
  have hlook : ∀ {t : FileSystem} {e : SystemError},
      t.runFiles (unlessThere p e) = (result, after) →
        (t.runFiles (unlessThere p e)).1 = result ∧ t = after := by
    intro t e hlook
    exact ⟨congrArg Prod.fst hlook, (runFiles_unlessThere t p e).symm.trans (congrArg Prod.snd hlook)⟩
  unfold makeAll at h
  rw [runFiles_then, runFiles_ask] at h
  dsimp only [answer] at h
  cases hfirst : s.makeDirectory p with
  | ok t =>
      rw [hfirst] at h
      cases h
      exact .made hfirst
  | error e =>
      rw [hfirst] at h
      dsimp only [attempt] at h
      split at h
      · rename_i hmissing
        obtain ⟨hlooked, rfl⟩ := hlook h
        exact .looked hfirst hmissing hlooked
      · rename_i hmissing
        obtain rfl := not_not.mp hmissing
        rw [runFiles_then] at h
        cases habove : s.runFiles (makeAll above) with
        | mk first t =>
            rw [habove] at h
            cases first with
            | error e =>
                cases h
                exact .stopped hfirst habove
            | ok _ =>
                dsimp only at h
                rw [runFiles_then, runFiles_ask] at h
                dsimp only [answer] at h
                cases hagain : t.makeDirectory p with
                | ok t' =>
                    rw [hagain] at h
                    cases h
                    exact .madeAfter hfirst habove hagain
                | error e =>
                    rw [hagain] at h
                    obtain ⟨hlooked, rfl⟩ := hlook h
                    exact .lookedAfter hfirst habove hagain hlooked

/-- The induction is on the paths: those further up are made when making the first fails. -/
theorem makeAll_grows {s : FileSystem} (hs : s.Sound) (paths : List Path) :
    Grows paths s (s.runFiles (makeAll paths)).2 := by
  induction paths generalizing s with
  | nil => exact .refl hs
  | cons p above ih =>
      have hone : ∀ {t t' : FileSystem}, t.Sound → t.makeDirectory p = .ok t' →
          Grows (p :: above) t t' := fun ht hmade => (makeDirectory_grows ht hmade).mono (by simp)
      have habove := (ih hs).mono (List.subset_cons_self p above)
      cases h : s.runFiles (makeAll (p :: above)) with
      | mk result after =>
          dsimp only
          cases makeAll_course h with
          | made hmade => exact hone hs hmade
          | looked _ _ _ => exact .refl hs
          | stopped _ hbefore =>
              rw [hbefore] at habove
              exact habove
          | madeAfter _ hbefore hmade =>
              rw [hbefore] at habove
              exact habove.trans (hone habove.sound hmade)
          | lookedAfter _ hbefore _ _ =>
              rw [hbefore] at habove
              exact habove

end FileProgram

namespace Store

/-! ## Opening -/

/-- The absolute form of a directory is found without a change to any file. -/
theorem runFiles_absolute (s : FileSystem) (dir : Path) :
    (s.runFiles (absolute dir)).2 = s := by
  unfold absolute
  split
  · rfl
  · split
    · rfl
    · rw [runFiles_then, runFiles_ask]
      split <;> rfl

/-- It depends on the working directory only. -/
theorem absolute_congr {s s' : FileSystem} (h : s'.workingDir = s.workingDir) (dir : Path) :
    (s'.runFiles (absolute dir)).1 = (s.runFiles (absolute dir)).1 := by
  unfold absolute
  split
  · rfl
  · split
    · rfl
    · rw [runFiles_then, runFiles_ask, runFiles_then, runFiles_ask]
      dsimp only [answer]
      unfold FileSystem.workingDirectory
      rw [h]
      cases s.workingDir <;> rfl

/-- The ways in which making sure of a directory can end, with the result and the files after it. -/
inductive EnsureCourse (s : FileSystem) (dir : Path) :
    Except CompileError Unit → FileSystem → Prop where
  | there {status : Status} : s.status dir = .ok status → status.isDirectory = true →
      EnsureCourse s dir (.ok ()) s
  | taken {status : Status} : s.status dir = .ok status → status.isDirectory = false →
      EnsureCourse s dir (.error (.config (.notDirectory dir))) s
  | unseen {e : SystemError} : s.status dir = .error e → e ≠ .missing →
      EnsureCourse s dir (.error (.unwritable dir e)) s
  | made {t : FileSystem} : s.status dir = .error .missing →
      s.runFiles (FileProgram.makeDirectories dir) = (.ok (), t) → EnsureCourse s dir (.ok ()) t
  | unmade {e : SystemError} {t : FileSystem} : s.status dir = .error .missing →
      s.runFiles (FileProgram.makeDirectories dir) = (.error e, t) →
      EnsureCourse s dir (.error (.unwritable dir e)) t

theorem ensure_course {s after : FileSystem} {dir : Path} {result : Except CompileError Unit}
    (h : s.runFiles (ensure dir) = (result, after)) : EnsureCourse s dir result after := by
  unfold ensure at h
  rw [runFiles_then, runFiles_ask] at h
  dsimp only [answer] at h
  cases hstatus : s.status dir with
  | ok status =>
      rw [hstatus] at h
      dsimp only at h
      split at h
      · rename_i hdir
        cases h
        exact .there hstatus hdir
      · rename_i hdir
        cases h
        exact .taken hstatus (eq_false_of_ne_true hdir)
  | error e =>
      rw [hstatus] at h
      dsimp only at h
      split at h
      · rename_i hmissing
        cases h
        exact .unseen hstatus hmissing
      · rename_i hmissing
        obtain rfl := not_not.mp hmissing
        rw [runFiles_then] at h
        cases hmade : s.runFiles (FileProgram.makeDirectories dir) with
        | mk first t =>
            rw [hmade] at h
            cases first with
            | ok _ =>
                cases h
                exact .made hstatus hmade
            | error e =>
                cases h
                exact .unmade hstatus hmade

/-- Where something is there, its kind decides, and nothing is made. -/
theorem runFiles_ensure_of_status {s : FileSystem} {full : Path} {status : Status}
    (h : s.status full = .ok status) :
    s.runFiles (ensure full) =
      (if status.isDirectory then .ok () else .error (.config (.notDirectory full)), s) := by
  unfold ensure
  rw [runFiles_then, runFiles_ask]
  dsimp only [answer]
  rw [h]
  dsimp only
  split <;> rfl

theorem ensure_grows {s : FileSystem} (hs : s.Sound) (dir : Path) :
    Grows (FileProgram.ancestors dir) s (s.runFiles (ensure dir)).2 := by
  have hmaking := FileProgram.makeAll_grows hs (FileProgram.ancestors dir)
  cases h : s.runFiles (ensure dir) with
  | mk result after =>
      dsimp only
      cases ensure_course h with
      | there _ _ => exact .refl hs
      | taken _ _ => exact .refl hs
      | unseen _ _ => exact .refl hs
      | made _ hmade =>
          unfold FileProgram.makeDirectories at hmade
          rw [hmade] at hmaking
          exact hmaking
      | unmade _ hmade =>
          unfold FileProgram.makeDirectories at hmade
          rw [hmade] at hmaking
          exact hmaking

/-- Where the directory has no absolute form, opening a store in it does nothing. -/
theorem runFiles_openAt_of_error {s : FileSystem} {dir : Path} {e : SystemError}
    (h : (s.runFiles (absolute dir)).1 = .error e) :
    s.runFiles (openAt dir) = (.error (.unwritable dir e), s) := by
  unfold openAt
  rw [runFiles_then, runFiles_absolute, h]
  rfl

/-- Otherwise it makes sure of this form. -/
theorem runFiles_openAt_of_ok {s : FileSystem} {dir full : Path}
    (h : (s.runFiles (absolute dir)).1 = .ok full) :
    s.runFiles (openAt dir) =
      ((s.runFiles (ensure full)).1.map fun _ => ⟨full⟩, (s.runFiles (ensure full)).2) := by
  unfold openAt
  rw [runFiles_then, runFiles_absolute, h]
  dsimp only
  rw [runFiles_then]
  cases (s.runFiles (ensure full)).1 <;> rfl

/-- Opening a store makes missing directories on the way to it and changes nothing else. -/
theorem openAt_grows {s : FileSystem} (hs : s.Sound) (dir : Path) :
    Grows (match (s.runFiles (absolute dir)).1 with
      | .ok full => FileProgram.ancestors full
      | .error _ => []) s (s.runFiles (openAt dir)).2 := by
  cases hfull : (s.runFiles (absolute dir)).1 with
  | error e =>
      rw [runFiles_openAt_of_error hfull]
      exact .refl hs
  | ok full =>
      rw [runFiles_openAt_of_ok hfull]
      exact ensure_grows hs full

/-- An open store is in the absolute form of its directory. -/
theorem openAt_eq_ok {s : FileSystem} {dir : Path} {store : Store}
    (h : (s.runFiles (openAt dir)).1 = .ok store) :
    (s.runFiles (absolute dir)).1 = .ok store.dir := by
  cases hfull : (s.runFiles (absolute dir)).1 with
  | error e =>
      rw [runFiles_openAt_of_error hfull] at h
      cases h
  | ok full =>
      rw [runFiles_openAt_of_ok hfull] at h
      dsimp only at h
      cases hmade : (s.runFiles (ensure full)).1 with
      | ok _ => rw [hmade] at h; cases h; rfl
      | error e => rw [hmade] at h; cases h

/-! ## Looking -/

/-- Looking for an artifact changes nothing. -/
theorem contains_system (store : Store) (n : ArtifactName) (s : FileSystem) :
    (s.runFiles (store.contains n)).2 = s := by
  unfold contains
  rw [FileProgram.runFiles_isFile]

end Store

end TemplateCache
