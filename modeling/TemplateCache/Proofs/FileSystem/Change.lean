import TemplateCache.Proofs.FileSystem.Tree
import TemplateCache.Proofs.Number.Digits

/-!
# What the requests change

Four requests change a file system: making a directory, removing an entry, making a temporary file
and renaming. Each of them puts a node under one name of one directory, or takes one away, or
both. This module says for each of them which name, in which directory, and what stood there
before; everything else stays, directories' times aside.

`Disk.SameAt` is the frame: two disks agree at a location. Main statements: `makeDirectory_eq_ok`,
`remove_join_eq_ok`, `temporary_eq_ok` and `rename_join_eq_ok`.
-/

namespace TemplateCache

theorem Node.withModified_withModified (n : Node) (t t' : Moment) :
    (n.withModified t).withModified t' = n.withModified t' := by
  cases n <;> rfl

namespace Disk

/-- Two disks agree at a location, the time of a directory aside. -/
def SameAt (d d' : Disk) (l : Location) : Prop := Option.Rel Node.Like (d.get? l) (d'.get? l)

namespace SameAt

theorem of_eq {d d' : Disk} {l : Location} (h : d'.get? l = d.get? l) : SameAt d d' l := by
  unfold SameAt
  rw [h]
  cases d.get? l with
  | none => exact .none
  | some n => exact .some (.refl n)

theorem refl (d : Disk) (l : Location) : SameAt d d l := of_eq rfl

theorem symm {d d' : Disk} {l : Location} (h : SameAt d d' l) : SameAt d' d l := by
  unfold SameAt at h ⊢
  generalize d.get? l = a at h ⊢
  generalize d'.get? l = b at h ⊢
  cases h with
  | none => exact .none
  | some hlike => exact .some hlike.symm

theorem trans {d d' d'' : Disk} {l : Location} (h : SameAt d d' l) (h' : SameAt d' d'' l) :
    SameAt d d'' l := by
  unfold SameAt at h h' ⊢
  generalize d.get? l = a at h ⊢
  generalize d'.get? l = b at h h'
  generalize d''.get? l = c at h' ⊢
  cases h with
  | none => exact h'
  | some hlike => cases h' with | some hlike' => exact .some (hlike.trans hlike')

theorem some {d d' : Disk} {l : Location} {n : Node} (h : SameAt d d' l)
    (hn : d.get? l = some n) : ∃ n', d'.get? l = some n' ∧ n.Like n' := by
  unfold SameAt at h
  rw [hn] at h
  generalize d'.get? l = b at h ⊢
  cases h with
  | some hlike => exact ⟨_, rfl, hlike⟩

theorem none_iff {d d' : Disk} {l : Location} (h : SameAt d d' l) :
    d.get? l = none ↔ d'.get? l = none := by
  unfold SameAt at h
  generalize d.get? l = a at h ⊢
  generalize d'.get? l = b at h ⊢
  cases h with
  | none => exact Iff.rfl
  | some _ => simp

/-- What is no directory is the same to the last byte. -/
theorem eq_some {d d' : Disk} {l : Location} {n : Node} (h : SameAt d d' l)
    (hn : d.get? l = Option.some n) (hdir : n.isDirectory = false) :
    d'.get? l = Option.some n := by
  obtain ⟨n', hn', hlike⟩ := h.some hn
  rw [hn', ← hlike.eq_of_not_directory hdir]

theorem directory {d d' : Disk} {l : Location} {t : Moment} (h : SameAt d d' l)
    (hl : d.get? l = Option.some (.directory t)) :
    ∃ t', d'.get? l = Option.some (.directory t') := by
  obtain ⟨n', hn', hlike⟩ := h.some hl
  obtain ⟨t', rfl⟩ := hlike.directory
  exact ⟨t', hn'⟩

end SameAt

/-- Where disks agree at every directory and link, ways are kept. -/
theorem keepsWays_of_sameAt {d d' : Disk}
    (h : ∀ l n, d.get? l = some n → n.leadsOn = true → SameAt d d' l) : KeepsWays d d' :=
  fun l n hn hleads => (h l n hn hleads).some hn

/-- No way goes through a file, so whatever takes its place leaves all of them. -/
theorem keepsWays_set_of_file {d : Disk} {l : Location} {data : Bytes} {t : Moment} {mode : Nat}
    (h : d.get? l = some (.file data t mode)) (n : Node) : KeepsWays d (d.set l n) := by
  refine keepsWays_of_sameAt fun k m hm hleads => .of_eq ?_
  rw [get?_set, if_neg]
  rintro rfl
  cases h.symm.trans hm
  cases hleads

theorem eq_of_nodes {d d' : Disk} (h : d.nodes = d'.nodes) : d = d' := by
  obtain ⟨nodes, _⟩ := d
  obtain ⟨nodes', _⟩ := d'
  cases h
  rfl

theorem nodes_set (d : Disk) (l : Location) (n : Node) :
    (d.set l n).nodes = (d.nodes.filter fun entry => !(entry.1 == l)) ++ [(l, n)] := rfl

theorem ne_cons (name : Name) (dir : Location) : dir ≠ name :: dir := by
  intro h
  have hlen := congrArg List.length h
  simp at hlen

/-- A new time for a directory leaves everything the same. -/
theorem sameAt_touch {d : Disk} {dir : Location}
    (hdir : ∃ t, d.get? dir = some (.directory t)) (now : Moment) (l : Location) :
    SameAt d (d.touch dir now) l := by
  obtain ⟨t, ht⟩ := hdir
  unfold SameAt
  rw [get?_touch]
  split
  · rename_i hl
    rw [hl, ht]
    exact .some (.inr ⟨rfl, rfl⟩)
  · exact SameAt.refl d l

end Disk

namespace FileSystem

open Disk

/-- Two systems differ in nothing but their disks and their supply of temporary names. -/
structure SameSetting (s s' : FileSystem) : Prop where
  workingDir : s'.workingDir = s.workingDir
  now : s'.now = s.now
  resources : s'.resources = s.resources

theorem SameSetting.refl (s : FileSystem) : SameSetting s s := ⟨rfl, rfl, rfl⟩

theorem SameSetting.trans {s s' s'' : FileSystem} (h : SameSetting s s')
    (h' : SameSetting s' s'') : SameSetting s s'' :=
  ⟨h'.workingDir.trans h.workingDir, h'.now.trans h.now, h'.resources.trans h.resources⟩

/-! ## Putting and dropping -/

section

variable {s : FileSystem} {dir : Location} {name : Name} {n : Node}

theorem get?_put_self : (s.put dir name n).disk.get? (name :: dir) = some n := by
  rw [put, get?_touch, if_neg (ne_cons name dir).symm, get?_set, if_pos rfl]

theorem get?_drop_self : (s.drop dir name).disk.get? (name :: dir) = none := by
  rw [drop, get?_touch, if_neg (ne_cons name dir).symm, get?_erase, if_pos rfl]

/-- Besides the name and the directory's time, nothing is different at all. -/
theorem get?_put_of_ne {l : Location} (h : l ≠ name :: dir) (hdir : l ≠ dir) :
    (s.put dir name n).disk.get? l = s.disk.get? l := by
  rw [put, get?_touch, if_neg hdir, get?_set, if_neg h]

theorem get?_put_dir :
    (s.put dir name n).disk.get? dir = (s.disk.get? dir).map (Node.withModified s.now) := by
  rw [put, get?_touch, if_pos rfl, get?_set, if_neg (ne_cons name dir)]

theorem get?_drop_of_ne {l : Location} (h : l ≠ name :: dir) (hdir : l ≠ dir) :
    (s.drop dir name).disk.get? l = s.disk.get? l := by
  rw [drop, get?_touch, if_neg hdir, get?_erase, if_neg h]

theorem get?_drop_dir :
    (s.drop dir name).disk.get? dir = (s.disk.get? dir).map (Node.withModified s.now) := by
  rw [drop, get?_touch, if_pos rfl, get?_erase, if_neg (ne_cons name dir)]

/-- Of two nodes put under one name the second counts. -/
theorem put_put (m : Node) : (s.put dir name m).put dir name n = s.put dir name n := by
  have hne := ne_cons name dir
  have hget : ∀ n, (s.disk.set (name :: dir) n).get? dir = s.disk.get? dir :=
    fun n => by rw [get?_set, if_neg hne]
  suffices hnodes : ((s.put dir name m).put dir name n).disk.nodes =
      (s.put dir name n).disk.nodes from
    congrArg (fun d => { s with disk := d }) (Disk.eq_of_nodes hnodes)
  cases hdir : s.disk.get? dir with
  | none =>
      have hget' : ((s.disk.set (name :: dir) m).set (name :: dir) n).get? dir = none := by
        rw [get?_set, if_neg hne, hget, hdir]
      simp only [put, touch, hget, hget', hdir]
      simp [nodes_set, List.filter_filter]
  -- the directory has its new time already when the second is put there
  | some node =>
      have hget' : (((s.disk.set (name :: dir) m).set dir (node.withModified s.now)).set
          (name :: dir) n).get? dir = some (node.withModified s.now) := by
        rw [get?_set, if_neg hne, get?_set, if_pos rfl]
      simp only [put, touch, hget, hget', hdir, Node.withModified_withModified]
      simp [nodes_set, List.filter_filter, hne, Bool.and_left_comm]

/-- A node put under a name of a directory changes nothing but what that name stands for. -/
theorem sameAt_put (hdir : ∃ t, s.disk.get? dir = some (.directory t)) {l : Location}
    (h : l ≠ name :: dir) : SameAt s.disk (s.put dir name n).disk l := by
  have hset : ∀ k, k ≠ name :: dir → (s.disk.set (name :: dir) n).get? k = s.disk.get? k :=
    fun k hk => by rw [get?_set, if_neg hk]
  refine (SameAt.of_eq (hset l h)).trans (sameAt_touch ?_ s.now l)
  rw [hset dir (ne_cons name dir)]
  exact hdir

theorem sameAt_drop (hdir : ∃ t, s.disk.get? dir = some (.directory t)) {l : Location}
    (h : l ≠ name :: dir) : SameAt s.disk (s.drop dir name).disk l := by
  have herase : ∀ k, k ≠ name :: dir → (s.disk.erase (name :: dir)).get? k = s.disk.get? k :=
    fun k hk => by rw [get?_erase, if_neg hk]
  refine (SameAt.of_eq (herase l h)).trans (sameAt_touch ?_ s.now l)
  rw [herase dir (ne_cons name dir)]
  exact hdir

end

/-- A tree stays one when a single entry of a directory changes that is no directory itself. -/
theorem Sound.of_sameAt {s s' : FileSystem} (hs : s.Sound) {dir : Location} {name : Name}
    (hdir : ∃ t, s.disk.get? dir = some (.directory t)) (hplain : Name.IsPlain name)
    (hold : ∀ t, s.disk.get? (name :: dir) ≠ some (.directory t))
    (hsame : ∀ l, l ≠ name :: dir → SameAt s.disk s'.disk l)
    (hworking : s'.workingDir = s.workingDir) : s'.Sound := by
  -- what changed was no directory, so no directory is lost
  have hkeep : ∀ {l : Location}, (∃ t, s.disk.get? l = some (.directory t)) →
      ∃ t, s'.disk.get? l = some (.directory t) := by
    rintro l ⟨t, ht⟩
    have hne : l ≠ name :: dir := fun e => hold t (e ▸ ht)
    exact (hsame l hne).directory ht
  refine ⟨⟨hkeep hs.tree.root, ?_, ?_⟩, ?_⟩
  · intro name' dir' n' hn'
    by_cases hl : name' :: dir' = name :: dir
    · cases hl
      exact hkeep hdir
    · obtain ⟨n, hn, _⟩ := (hsame _ hl).symm.some hn'
      exact hkeep (hs.tree.parent hn)
  · intro name' dir' n' hn'
    by_cases hl : name' :: dir' = name :: dir
    · cases hl
      exact hplain
    · obtain ⟨n, hn, _⟩ := (hsame _ hl).symm.some hn'
      exact hs.tree.plain hn
  · rw [hworking]
    exact hs.working.mono fun l => hkeep

/-- A tree stays one where something takes the place of a file. -/
theorem Sound.set_of_file {s : FileSystem} (hs : s.Sound) {l : Location} {data : Bytes}
    {t : Moment} {mode : Nat} (h : s.disk.get? l = some (.file data t mode)) (n : Node) :
    ({ s with disk := s.disk.set l n } : FileSystem).Sound := by
  cases l with
  | nil =>
      obtain ⟨_, hroot⟩ := hs.tree.root
      cases h.symm.trans hroot
  | cons name dir =>
      refine hs.of_sameAt (hs.tree.parent h) (hs.tree.plain h) (fun _ hdir => ?_)
        (fun k hk => .of_eq ?_) rfl
      · cases h.symm.trans hdir
      · rw [get?_set, if_neg hk]

theorem Sound.of_same {s s' : FileSystem} (hs : s.Sound)
    (hsame : ∀ l, SameAt s.disk s'.disk l) (hworking : s'.workingDir = s.workingDir) :
    s'.Sound := by
  refine ⟨⟨?_, ?_, ?_⟩, ?_⟩
  · exact (hsame []).directory hs.tree.root.choose_spec
  · intro name dir n' hn'
    obtain ⟨n, hn, -⟩ := (hsame _).symm.some hn'
    exact (hsame dir).directory (hs.tree.parent hn).choose_spec
  · intro name dir n' hn'
    obtain ⟨n, hn, -⟩ := (hsame _).symm.some hn'
    exact hs.tree.plain hn
  · rw [hworking]
    exact hs.working.mono fun l hl => (hsame l).directory hl.choose_spec

/-! ## Making a directory -/

/-- The way to a vacant name is a way to the directory that is made there. -/
theorem leads_of_vacant {d d' : Disk} {m : Manner} {k : Nat} {place : Place}
    {segments : List Segment} {dir : Location} {name : Name} (hkeep : KeepsWays d d')
    (hmade : ∃ t, d'.get? (name :: dir) = some (.directory t))
    (h : d.Ends m k place segments (.vacant dir name)) :
    ∃ j, d'.Leads k place segments j (.inside (name :: dir)) := by
  generalize hspot : Spot.vacant dir name = spot at h
  induction h with
  | node _ => cases hspot
  | removed => cases hspot
  | here _ ih => obtain ⟨j, hj⟩ := ih hspot; exact ⟨j, .here hj⟩
  | up _ ih => obtain ⟨j, hj⟩ := ih hspot; exact ⟨j, .up hj⟩
  | vacant hspell _ =>
      cases hspot
      obtain ⟨t, ht⟩ := hmade
      exact ⟨_, .into (length_le_of_unspellable hspell) ht .stay⟩
  | into hspell hdir _ ih =>
      obtain ⟨j, hj⟩ := ih hspot
      obtain ⟨t, ht⟩ := hkeep.directory hdir
      exact ⟨j, .into (length_le_of_unspellable hspell) ht hj⟩
  | through hspell hlink _ _ ih =>
      obtain ⟨j, hj⟩ := ih hspot
      exact ⟨j, .through (length_le_of_unspellable hspell) (hkeep.link hlink) hj⟩
  | link _ _ _ => cases hspot
  | leaf _ _ _ => cases hspot

/-- A directory is made where there was nothing, and the path leads to it from then on. -/
theorem makeDirectory_eq_ok {s s' : FileSystem} (hs : s.Sound) {p : Path}
    (h : s.makeDirectory p = .ok s') :
    ∃ dir name, (∃ t, s.disk.get? dir = some (.directory t)) ∧ Name.IsPlain name ∧
      s.disk.get? (name :: dir) = none ∧ s' = s.put dir name (.directory s.now) ∧
      s'.Reaches p (name :: dir) := by
  unfold makeDirectory at h
  obtain ⟨spot, hloc, h⟩ := bind_eq_ok h
  cases spot with
  | node l n => cases h
  | removed base levels => cases h
  | vacant dir name =>
      cases h
      have hends := (locate_eq_ok_iff.mp hloc).2
      simp only [Bool.false_eq_true, if_false] at hends
      obtain ⟨hdir, hplain, hnone⟩ :=
        hends.vacant_spot hs.tree (hs.working.start hs.tree p) p.segments_allPlain
      refine ⟨dir, name, hdir, hplain, hnone, rfl, ?_⟩
      -- nothing stood where the directory is made, so the way there is as before
      have hkeep : KeepsWays s.disk (s.put dir name (.directory s.now)).disk := by
        refine keepsWays_of_sameAt fun l n hn _ => sameAt_put hdir ?_
        rintro rfl
        rw [hnone] at hn
        cases hn
      exact leads_of_vacant hkeep ⟨_, get?_put_self⟩ hends

/-! ## Names in a directory -/

/-- What is removed under a name in a directory is no directory. -/
theorem remove_join_eq_ok {s s' : FileSystem} {dir : Path} {name : Name}
    (hplain : Name.IsPlain name) (h : s.remove (dir.join ⟨name⟩) = .ok s') :
    ∃ l n, s.Reaches dir l ∧ s.disk.get? (name :: l) = some n ∧ n.isDirectory = false ∧
      s' = s.drop l name := by
  unfold remove at h
  obtain ⟨spot, hentry, h⟩ := bind_eq_ok h
  obtain ⟨-, -, l, hreach, ⟨-, rfl⟩ | ⟨n, hn, rfl⟩⟩ := (entry_join_eq_ok_iff hplain).mp hentry
  · cases h
  · refine ⟨l, n, hreach, hn, ?_⟩
    cases n with
    | directory t => cases h
    | file data t mode => cases h; exact ⟨rfl, rfl⟩
    | link target t => cases h; exact ⟨rfl, rfl⟩
    | device t => cases h; exact ⟨rfl, rfl⟩

/-- An entry that is a file can be removed. -/
theorem remove_of_entry {s : FileSystem} {p : Path} {l : Location} {name : Name} {data : Bytes}
    {t : Moment} {mode : Nat} (h : s.entry p = .ok (.node (name :: l) (.file data t mode))) :
    s.remove p = .ok (s.drop l name) := by
  unfold remove
  rw [h]
  rfl

/-- A renamed entry is no directory, and neither is what it replaces. -/
theorem rename_join_eq_ok {s s' : FileSystem} {dir : Path} {source target : Name}
    (hsource : Name.IsPlain source) (htarget : Name.IsPlain target)
    (h : s.rename (dir.join ⟨source⟩) (dir.join ⟨target⟩) = .ok s') :
    ∃ l n, s.Reaches dir l ∧ s.disk.get? (source :: l) = some n ∧ n.isDirectory = false ∧
      (∀ t, s.disk.get? (target :: l) ≠ some (.directory t)) ∧
      s' = (s.drop l source).put l target n := by
  unfold rename at h
  obtain ⟨old, hold, h⟩ := bind_eq_ok h
  obtain ⟨new, hnew, h⟩ := bind_eq_ok h
  obtain ⟨-, -, l, hreach, ⟨-, rfl⟩ | ⟨n, hn, rfl⟩⟩ := (entry_join_eq_ok_iff hsource).mp hold
  · cases h
  obtain ⟨-, -, l', hreach', hnew⟩ := (entry_join_eq_ok_iff htarget).mp hnew
  -- both names are in the directory that the one path reaches
  cases hreach.unique hreach'
  refine ⟨l, n, hreach, hn, ?_⟩
  obtain ⟨hnone, rfl⟩ | ⟨o, ho, rfl⟩ := hnew
  · rw [hnone]
    cases n <;> cases h <;> exact ⟨rfl, by simp, rfl⟩
  · rw [ho]
    cases o <;> cases n <;> cases h <;> exact ⟨rfl, by simp, rfl⟩

/-! ## Temporary files -/

theorem isPlain_temporaryName (n : Nat) : Name.IsPlain (temporaryName n) := by
  unfold temporaryName
  refine Name.isPlain_encode ?_ ?_
  · intro h
    rcases List.mem_append.mp h with h | h
    · exact absurd h (by decide)
    · rcases List.mem_append.mp h with h | h
      · exact absurd (List.eq_of_mem_replicate h) (by decide)
      · exact absurd h ((Decimal.allDigits_digits n).not_mem rfl)
  · simp

/-- A temporary file is made in the directory, under a name that was free. -/
theorem temporaryFrom_eq_ok {s s' : FileSystem} {dir p : Path} {data : Bytes} {tries n : Nat}
    (h : s.temporaryFrom dir data tries n = .ok (p, s')) :
    ∃ k l, p = dir.join ⟨temporaryName k⟩ ∧ s.entry p = .ok (.vacant l (temporaryName k)) ∧
      s' = { s.put l (temporaryName k) (.file data s.now fileMode) with seed := k + 1 } := by
  induction tries generalizing n with
  | zero => cases h
  | succ tries ih =>
      unfold temporaryFrom at h
      dsimp only at h
      split at h
      · rename_i l name hentry
        cases h
        obtain ⟨-, -, l', -, ⟨-, hspot⟩ | ⟨_, -, hspot⟩⟩ :=
          (entry_join_eq_ok_iff (isPlain_temporaryName n)).mp hentry
        · cases hspot
          exact ⟨n, l, rfl, hentry, rfl⟩
        · cases hspot
      · exact ih h
      · cases h

end FileSystem

end TemplateCache
