import TemplateCache.Proofs.Artifact.Naming
import TemplateCache.Proofs.Store.Pruning

/-!
# Looking an artifact up

An artifact is there when its path leads to a regular file. As long as no link has an artifact's
name, that file is the entry of the store's directory under this name, so what a path leads to is
decided in one place of the disk. Main statements: `entry_of_contains` and `contains_of_reaches`.
-/

namespace TemplateCache

open FileSystem

namespace FileSystem

/-- No link has a name that is kept for artifacts. -/
def NoReservedLinks (s : FileSystem) : Prop :=
  ∀ name dir target t, ArtifactName.Reserved name →
    s.disk.get? (name :: dir) ≠ some (.link target t)

/-- A file in a directory is what its name there leads to. -/
theorem follow_of_entry {s : FileSystem} {dir : Path} {name : Name} {l : Location}
    {data : Bytes} {t : Moment} {mode : Nat} (hplain : Name.IsPlain name)
    (h : s.entry (dir.join ⟨name⟩) = .ok (.node l (.file data t mode))) :
    s.follow (dir.join ⟨name⟩) = .ok (.node l (.file data t mode)) := by
  obtain ⟨hcheck, hlen, l', ⟨j, hway⟩, ⟨-, hspot⟩ | ⟨n, hn, hspot⟩⟩ :=
    (entry_join_eq_ok_iff hplain).mp h
  · cases hspot
  · cases hspot
    have hlast : s.disk.Ends .follow j (.inside l') [.name name]
        (.node (name :: l') (.file data t mode)) :=
      .leaf (Disk.unspellable_eq_false (by simp) hlen) hn rfl
    rw [follow_eq_ok_iff, Path.strictSegments_join_name dir hplain, start_join_name _ dir hplain,
      Disk.ends_append_name (by simp)]
    exact ⟨hcheck, j, _, hway, hlast⟩

theorem contents_of_follow {s : FileSystem} {p : Path} {l : Location} {data : Bytes}
    {t : Moment} {mode : Nat} (h : s.follow p = .ok (.node l (.file data t mode))) :
    s.contents p = .ok data := by
  unfold contents
  rw [h]
  rfl

/-- What a path to a regular file leads to is a file. -/
theorem follow_of_isFile {s : FileSystem} {p : Path} {status : Status}
    (h : s.status p = .ok status) (hfile : status.isFile = true) :
    ∃ l data t mode, s.follow p = .ok (.node l (.file data t mode)) := by
  unfold FileSystem.status at h
  obtain ⟨spot, hfollow, h⟩ := bind_eq_ok h
  cases spot with
  | removed base levels => cases h; cases hfile
  | vacant dir name => cases h
  | node l n =>
      cases n with
      | directory t => cases h; cases hfile
      | link target t => cases h; cases hfile
      | device t => cases h; cases hfile
      | file data t mode => exact ⟨l, data, t, mode, hfollow⟩

/-- A regular file that a path leads to is the entry, or there is a link in its place. -/
theorem link_or_entry_of_isFile {s : FileSystem} {dir : Path} {name : Name}
    (hplain : Name.IsPlain name) {status : Status} (h : s.status (dir.join ⟨name⟩) = .ok status)
    (hfile : status.isFile = true) :
    (checkPath (dir.join ⟨name⟩) = .ok () ∧ name.length ≤ nameLimit) ∧
    ∃ l, s.Reaches dir l ∧ ((∃ target t, s.disk.get? (name :: l) = some (.link target t)) ∨
      ∃ data t mode, s.disk.get? (name :: l) = some (.file data t mode) ∧
        s.entry (dir.join ⟨name⟩) = .ok (.node (name :: l) (.file data t mode))) := by
  obtain ⟨_, data, t, mode, hfollow⟩ := follow_of_isFile h hfile
  obtain ⟨hcheck, hlen, l, hreach, hlink | hentry⟩ := follow_join hplain hfollow
  · exact ⟨⟨hcheck, hlen⟩, l, hreach, .inl hlink⟩
  -- no link is followed at the end, so what the path leads to is the entry itself
  · obtain ⟨-, -, l', hreach', ⟨-, hspot⟩ | ⟨node, hnode, hspot⟩⟩ :=
      (entry_join_eq_ok_iff hplain).mp hentry
    · cases hspot
    · cases hspot
      exact ⟨⟨hcheck, hlen⟩, l', hreach', .inr ⟨data, t, mode, hnode, hentry⟩⟩

/-- Where no link has a name, a regular file that its path leads to is the entry. -/
theorem entry_of_isFile {s : FileSystem} {dir : Path} {name : Name} (hplain : Name.IsPlain name)
    (hlink : ∀ l target t, s.disk.get? (name :: l) ≠ some (.link target t)) {status : Status}
    (h : s.status (dir.join ⟨name⟩) = .ok status) (hfile : status.isFile = true) :
    ∃ l data t mode, s.Reaches dir l ∧
      (checkPath (dir.join ⟨name⟩) = .ok () ∧ name.length ≤ nameLimit) ∧
      s.disk.get? (name :: l) = some (.file data t mode) ∧
      s.entry (dir.join ⟨name⟩) = .ok (.node (name :: l) (.file data t mode)) := by
  obtain ⟨hask, l, hreach, ⟨target, t, hl⟩ | ⟨data, t, mode, hthere, hentry⟩⟩ :=
    link_or_entry_of_isFile hplain h hfile
  · exact absurd hl (hlink l target t)
  · exact ⟨l, data, t, mode, hreach, hask, hthere, hentry⟩

end FileSystem

namespace Store

/-- An artifact that is there is an entry of the store's directory. -/
theorem entry_of_contains {s : FileSystem} (hno : s.NoReservedLinks) {store : Store}
    {n : ArtifactName} (hn : n.IsProper) (hreserved : ArtifactName.Reserved n.entryName)
    (h : (s.runFiles (store.contains n)).1 = true) :
    ∃ dir data t mode, s.Reaches store.dir dir ∧ store.CanAsk n ∧
      s.disk.get? (n.entryName :: dir) = some (.file data t mode) ∧
      s.entry (store.artifactPath n) = .ok (.node (n.entryName :: dir) (.file data t mode)) := by
  unfold contains at h
  rw [FileProgram.runFiles_isFile] at h
  dsimp only at h
  split at h
  · rename_i status hstatus
    exact entry_of_isFile hn.plain (fun dir target t => hno _ dir target t hreserved) hstatus h
  · cases h

/-- What stands in the store's directory under an artifact's name is its entry. -/
theorem entry_of_reaches {s : FileSystem} {store : Store} {n : ArtifactName} {dir : Location}
    {node : Node} (hplain : Name.IsPlain n.entryName) (hask : store.CanAsk n)
    (hreach : s.Reaches store.dir dir) (hnode : s.disk.get? (n.entryName :: dir) = some node) :
    s.entry (store.artifactPath n) = .ok (.node (n.entryName :: dir) node) :=
  (entry_join_eq_ok_iff hplain).mpr ⟨hask.1, hask.2, dir, hreach, .inr ⟨node, hnode, rfl⟩⟩

/-- A regular file in the store's directory under an artifact's name is that artifact. -/
theorem contains_of_reaches {s : FileSystem} {store : Store} {n : ArtifactName} {dir : Location}
    {data : Bytes} {t : Moment} {mode : Nat} (hplain : Name.IsPlain n.entryName)
    (hask : store.CanAsk n) (hreach : s.Reaches store.dir dir)
    (hfile : s.disk.get? (n.entryName :: dir) = some (.file data t mode)) :
    (s.runFiles (store.contains n)).1 = true := by
  have hfollow := follow_of_entry hplain (entry_of_reaches hplain hask hreach hfile)
  unfold contains
  rw [FileProgram.runFiles_isFile]
  unfold artifactPath
  unfold ArtifactName.entryName at hfollow
  rw [status_of_follow hfollow]
  rfl

/-! ## Ways past artifacts -/

/-- Where no link can be taken for an artifact, writing one cuts no way. -/
theorem Written.keepsWays {store : Store} {n : ArtifactName} {data : Bytes} {dir : Location}
    {s s' : FileSystem} (h : Written store n data dir s s') (hno : s.NoReservedLinks)
    (hreserved : ArtifactName.Reserved n.entryName) : Disk.KeepsWays s.disk s'.disk := by
  refine Disk.keepsWays_of_sameAt fun l node hnode hleads => h.others l ?_
  rintro rfl
  -- what was replaced is neither of the two kinds of nodes that lead on
  cases node with
  | directory t => exact h.replaced t hnode
  | link target t => exact hno _ dir target t hreserved hnode
  | file data t mode => cases hleads
  | device t => cases hleads

theorem Written.noReservedLinks {store : Store} {n : ArtifactName} {data : Bytes}
    {dir : Location} {s s' : FileSystem} (h : Written store n data dir s s')
    (hno : s.NoReservedLinks) : s'.NoReservedLinks := by
  intro name dir' target t hname hlink
  by_cases hl : name :: dir' = n.entryName :: dir
  · rw [hl, h.file] at hlink
    cases hlink
  · exact hno name dir' target t hname ((h.others _ hl).symm.eq_some hlink rfl)

/-- Neither does removing old ones. -/
theorem Cleared.keepsWays {store : Store} {time : Moment} {names : List Name}
    {s s' : FileSystem} (h : Cleared store time names s s') (hno : s.NoReservedLinks)
    (hnames : ∀ name ∈ names, ArtifactName.Reserved name) : Disk.KeepsWays s.disk s'.disk := by
  refine Disk.keepsWays_of_sameAt fun l node hnode hleads => ?_
  rcases h.fate l with hsame | ⟨⟨name, dir, node', rfl, hname, -, hnode', hdir, -⟩, -⟩
  · exact hsame
  · rw [hnode] at hnode'
    cases hnode'
    cases node with
    | directory t => cases hdir
    | link target t => exact absurd hnode (hno name dir target t (hnames name hname))
    | file data t mode => cases hleads
    | device t => cases hleads

end Store

end TemplateCache
