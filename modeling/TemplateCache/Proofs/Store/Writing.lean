import TemplateCache.Proofs.Store.Opening

/-!
# Writing an artifact

An artifact is written under a temporary name and renamed. Seen from outside there are two
outcomes. Either the artifact is there with all of its bytes and nothing else changed
(`Store.Written`), or nothing changed at all: a temporary file that could not be renamed is always
removed again. Main statements: `write_eq_ok` and `write_eq_error`.
-/

namespace TemplateCache

open FileSystem

/-- The name of a file in a directory of artifacts. -/
def ArtifactName.entryName (n : ArtifactName) : Name := Utf8.encode n.fileName

/-- An artifact name that can be a file's, and is not one of those that temporary files have. -/
structure ArtifactName.IsProper (n : ArtifactName) : Prop where
  plain : Name.IsPlain n.entryName
  notTemporary : ∀ k, temporaryName k ≠ n.entryName

namespace Store

/-- An artifact's path ends with its name. -/
theorem segments_artifactPath (store : Store) {n : ArtifactName} (h : n.IsProper) :
    (store.artifactPath n).segments = store.dir.segments ++ [.name n.entryName] :=
  Path.segments_join_name store.dir h.plain

/-- The path of an artifact is one that can be asked for. -/
def CanAsk (store : Store) (n : ArtifactName) : Prop :=
  checkPath (store.artifactPath n) = .ok () ∧ n.entryName.length ≤ nameLimit

/-- A rename asks for the artifact's path before it does anything. -/
theorem canAsk_of_rename {store : Store} {n : ArtifactName} (hn : n.IsProper) {source : Path}
    {s s' : FileSystem} (h : s.rename source (store.artifactPath n) = .ok s') :
    store.CanAsk n := by
  unfold rename at h
  obtain ⟨_, -, h⟩ := bind_eq_ok h
  obtain ⟨_, hentry, -⟩ := bind_eq_ok h
  obtain ⟨hcheck, hlen, -⟩ := (entry_join_eq_ok_iff hn.plain).mp hentry
  exact ⟨hcheck, hlen⟩

/-- An artifact was written into a directory; nothing else is different. -/
structure Written (store : Store) (n : ArtifactName) (data : Bytes) (dir : Location)
    (s s' : FileSystem) : Prop where
  reaches : s.Reaches store.dir dir
  asked : store.CanAsk n
  replaced : ∀ t, s.disk.get? (n.entryName :: dir) ≠ some (.directory t)
  file : s'.disk.get? (n.entryName :: dir) = some (.file data s.now fileMode)
  others : ∀ l, l ≠ n.entryName :: dir → Disk.SameAt s.disk s'.disk l
  setting : SameSetting s s'

theorem Written.sound {store : Store} {n : ArtifactName} {data : Bytes} {dir : Location}
    {s s' : FileSystem} (h : Written store n data dir s s') (hs : s.Sound)
    (hplain : Name.IsPlain n.entryName) : s'.Sound :=
  hs.of_sameAt (h.reaches.directory hs) hplain h.replaced h.others h.setting.workingDir

/-- An artifact is on no way, so it opens none. -/
theorem Written.keepsWays_back {store : Store} {n : ArtifactName} {data : Bytes} {dir : Location}
    {s s' : FileSystem} (h : Written store n data dir s s') : Disk.KeepsWays s'.disk s.disk := by
  refine Disk.keepsWays_of_sameAt fun l node hnode hleads => (h.others l ?_).symm
  rintro rfl
  rw [h.file] at hnode
  cases hnode
  cases hleads

/-! ## The temporary file -/

/-- A system with a temporary file in a directory, and the one before it was made. -/
structure Prepared (dir : Path) (data : Bytes) (k : Nat) (l : Location) (s s₁ : FileSystem) :
    Prop where
  reaches : s.Reaches dir l
  free : s.disk.get? (temporaryName k :: l) = none
  asked : checkPath (dir.join ⟨temporaryName k⟩) = .ok () ∧ (temporaryName k).length ≤ nameLimit
  file : s₁.disk.get? (temporaryName k :: l) = some (.file data s.now fileMode)
  others : ∀ l', l' ≠ temporaryName k :: l → Disk.SameAt s.disk s₁.disk l'
  setting : SameSetting s s₁

namespace Prepared

variable {dir : Path} {data : Bytes} {k : Nat} {l : Location} {s s₁ : FileSystem}

theorem of_temporary (hs : s.Sound) {p : Path} (h : s.temporary dir data = .ok (p, s₁)) :
    ∃ k l, p = dir.join ⟨temporaryName k⟩ ∧ Prepared dir data k l s s₁ := by
  obtain ⟨k, l, rfl, hentry, rfl⟩ := temporaryFrom_eq_ok h
  obtain ⟨hcheck, hlen, l', hreach, ⟨hnone, hspot⟩ | ⟨_, -, hspot⟩⟩ :=
    (entry_join_eq_ok_iff (isPlain_temporaryName k)).mp hentry
  · cases hspot
    have hdir := hreach.directory hs
    exact ⟨k, l, rfl, hreach, hnone, ⟨hcheck, hlen⟩, get?_put_self, fun l' hl' =>
      sameAt_put hdir hl', ⟨rfl, rfl, rfl⟩⟩
  · cases hspot

theorem keepsWays (h : Prepared dir data k l s s₁) : Disk.KeepsWays s.disk s₁.disk := by
  refine Disk.keepsWays_of_sameAt fun l' n hn _ => h.others l' ?_
  rintro rfl
  rw [h.free] at hn
  cases hn

theorem reaches_after (h : Prepared dir data k l s s₁) : s₁.Reaches dir l :=
  h.reaches.mono h.keepsWays h.setting.workingDir

theorem sound (h : Prepared dir data k l s s₁) (hs : s.Sound) : s₁.Sound := by
  refine hs.of_sameAt (h.reaches.directory hs) (isPlain_temporaryName k) ?_ h.others
    h.setting.workingDir
  intro t ht
  rw [h.free] at ht
  cases ht

/-- A temporary file that is removed leaves no trace. -/
theorem removed (h : Prepared dir data k l s s₁) (hs : s.Sound) :
    ∃ s₂, s₁.remove (dir.join ⟨temporaryName k⟩) = .ok s₂ ∧
      (∀ l', Disk.SameAt s.disk s₂.disk l') ∧ SameSetting s s₂ := by
  have hentry : s₁.entry (dir.join ⟨temporaryName k⟩) =
      .ok (.node (temporaryName k :: l) (.file data s.now fileMode)) :=
    (entry_join_eq_ok_iff (isPlain_temporaryName k)).mpr
      ⟨h.asked.1, h.asked.2, l, h.reaches_after, .inr ⟨_, h.file, rfl⟩⟩
  refine ⟨_, remove_of_entry hentry, ?_, h.setting.trans ⟨rfl, rfl, rfl⟩⟩
  intro l'
  by_cases hl' : l' = temporaryName k :: l
  · subst hl'
    exact .of_eq (by rw [get?_drop_self, h.free])
  · have hdir := h.reaches_after.directory (h.sound hs)
    exact (h.others l' hl').trans (sameAt_drop hdir hl')

/-- A temporary file that takes an artifact's name is an artifact. -/
theorem renamed {store : Store} (h : Prepared store.dir data k l s s₁) (hs : s.Sound)
    {n : ArtifactName} (hn : n.IsProper) {s₂ : FileSystem}
    (hrename : s₁.rename (store.dir.join ⟨temporaryName k⟩) (store.artifactPath n) = .ok s₂) :
    Written store n data l s s₂ := by
  have hasked := canAsk_of_rename hn hrename
  obtain ⟨l', m, hreach, hm, -, hreplaced, rfl⟩ :=
    rename_join_eq_ok (isPlain_temporaryName k) hn.plain hrename
  -- what is renamed is the file just made, in the directory where it was made
  cases hreach.unique h.reaches_after
  rw [h.file] at hm
  cases hm
  have hne : n.entryName :: l ≠ temporaryName k :: l := by
    intro e
    injection e with e _
    exact hn.notTemporary k e.symm
  have hdir₁ := h.reaches_after.directory (h.sound hs)
  have hdir₂ : ∃ t, (s₁.drop l (temporaryName k)).disk.get? l = some (.directory t) :=
    (sameAt_drop hdir₁ (Disk.ne_cons _ l)).directory hdir₁.choose_spec
  refine ⟨h.reaches, hasked, ?_, get?_put_self, ?_, h.setting.trans ⟨rfl, rfl, rfl⟩⟩
  · intro t ht
    obtain ⟨t', ht'⟩ := (h.others _ hne).directory ht
    exact hreplaced t' ht'
  · intro l' hl'
    by_cases htmp : l' = temporaryName k :: l
    -- the temporary name was free at first and is free again
    · subst htmp
      have hput := sameAt_put (n := .file data s.now fileMode) hdir₂ hl'
      refine .trans (.of_eq ?_) hput
      rw [get?_drop_self, h.free]
    · exact ((h.others l' htmp).trans (sameAt_drop hdir₁ htmp)).trans (sameAt_put hdir₂ hl')

end Prepared

/-! ## Outcomes -/

/-- The ways in which writing can end, with the result and the files after it. -/
inductive WriteCourse (s : FileSystem) (store : Store) (n : ArtifactName) (data : Bytes) :
    Except CompileError Path → FileSystem → Prop where
  | unmade {e : SystemError} : s.temporary store.dir data = .error e →
      WriteCourse s store n data (.error (.unwritable store.dir e)) s
  | renamed {temporary : Path} {s₁ s₂ : FileSystem} :
      s.temporary store.dir data = .ok (temporary, s₁) →
      s₁.rename temporary (store.artifactPath n) = .ok s₂ →
      WriteCourse s store n data (.ok (store.artifactPath n)) s₂
  | discarded {temporary : Path} {s₁ : FileSystem} {e : SystemError} :
      s.temporary store.dir data = .ok (temporary, s₁) →
      s₁.rename temporary (store.artifactPath n) = .error e →
      WriteCourse s store n data (.error (.unwritable (store.artifactPath n) e))
        (answer (.remove temporary) s₁).2

theorem write_course {s after : FileSystem} {store : Store} {n : ArtifactName} {data : Bytes}
    {result : Except CompileError Path} (h : s.runFiles (store.write n data) = (result, after)) :
    WriteCourse s store n data result after := by
  unfold write at h
  rw [runFiles_then, runFiles_ask] at h
  dsimp only [answer] at h
  cases htemporary : s.temporary store.dir data with
  | error e =>
      rw [htemporary] at h
      cases h
      exact .unmade htemporary
  | ok made =>
      obtain ⟨temporary, s₁⟩ := made
      rw [htemporary] at h
      dsimp only at h
      rw [runFiles_then, runFiles_ask] at h
      dsimp only [answer] at h
      cases hrename : s₁.rename temporary (store.artifactPath n) with
      | ok s₂ =>
          rw [hrename] at h
          cases h
          exact .renamed htemporary hrename
      | error e =>
          rw [hrename] at h
          dsimp only [attempt] at h
          rw [runFiles_then, runFiles_ask] at h
          cases h
          exact .discarded htemporary hrename

/-- The two outcomes of writing, each with its result. -/
theorem write_cases {s : FileSystem} (hs : s.Sound) (store : Store) {n : ArtifactName}
    (hn : n.IsProper) (data : Bytes) :
    ((s.runFiles (store.write n data)).1 = .ok (store.artifactPath n) ∧
      ∃ dir, Written store n data dir s (s.runFiles (store.write n data)).2) ∨
    (∃ e, (s.runFiles (store.write n data)).1 = .error e) ∧
      (∀ l, Disk.SameAt s.disk (s.runFiles (store.write n data)).2.disk l) ∧
      SameSetting s (s.runFiles (store.write n data)).2 := by
  cases h : s.runFiles (store.write n data) with
  | mk result after =>
      dsimp only
      cases write_course h with
      | unmade _ => exact .inr ⟨⟨_, rfl⟩, fun l => .refl _ l, .refl s⟩
      | renamed htemporary hrename =>
          obtain ⟨k, l, rfl, hprepared⟩ := Prepared.of_temporary hs htemporary
          exact .inl ⟨rfl, l, hprepared.renamed hs hn hrename⟩
      | discarded htemporary _ =>
          -- a failed rename changes nothing, so there is the temporary file to remove
          obtain ⟨k, l, rfl, hprepared⟩ := Prepared.of_temporary hs htemporary
          obtain ⟨s₂, hremove, hsame, hsetting⟩ := hprepared.removed hs
          dsimp only [answer]
          rw [hremove]
          exact .inr ⟨⟨_, rfl⟩, hsame, hsetting⟩

/-- What writing answers is the artifact's path, if anything. -/
theorem path_of_write {s s' : FileSystem} {store : Store} {n : ArtifactName} {data : Bytes}
    {p : Path} (h : s.runFiles (store.write n data) = (.ok p, s')) : p = store.artifactPath n := by
  cases write_course h with
  | renamed _ _ => rfl

theorem write_eq_ok {s s' : FileSystem} (hs : s.Sound) {store : Store} {n : ArtifactName}
    (hn : n.IsProper) {data : Bytes} {p : Path}
    (h : s.runFiles (store.write n data) = (.ok p, s')) :
    p = store.artifactPath n ∧ ∃ dir, Written store n data dir s s' := by
  rcases write_cases hs store hn data with ⟨hok, hwritten⟩ | ⟨⟨e, herror⟩, -⟩
  · rw [h] at hok hwritten
    cases hok
    exact ⟨rfl, hwritten⟩
  · rw [h] at herror
    cases herror

theorem write_eq_error {s s' : FileSystem} (hs : s.Sound) {store : Store} {n : ArtifactName}
    (hn : n.IsProper) {data : Bytes} {e : CompileError}
    (h : s.runFiles (store.write n data) = (.error e, s')) :
    (∀ l, Disk.SameAt s.disk s'.disk l) ∧ SameSetting s s' := by
  rcases write_cases hs store hn data with ⟨hok, -⟩ | ⟨-, hsame⟩
  · rw [h] at hok
    cases hok
  · rw [h] at hsame
    exact hsame

end Store

end TemplateCache
