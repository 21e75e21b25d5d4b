import TemplateCache.Proofs.Store.Writing

/-!
# Pruning a store

Pruning goes through the names that were in the store when it began, and removes those entries that
are expired by then. The order of the names, what happens between two of them, and which failure
ends it do not matter for what is said here: whatever is gone afterwards was expired at the
beginning, and everything else is the same.

Removing an entry may cut a way, for entries can be links, but it never opens one. That is what
carries the induction over the names: a directory that is reached later was reached at first.
-/

namespace TemplateCache

open FileSystem

namespace Store

/-- An entry of the store under one of some names that is no directory and older than a time. -/
def Expired (store : Store) (time : Moment) (names : List Name) (s : FileSystem)
    (l : Location) : Prop :=
  ∃ name dir n, l = name :: dir ∧ name ∈ names ∧ s.Reaches store.dir dir ∧
    s.disk.get? l = some n ∧ n.isDirectory = false ∧ n.modified.before time = true

/-- The second system is the first without some of its expired entries. -/
structure Cleared (store : Store) (time : Moment) (names : List Name)
    (s s' : FileSystem) : Prop where
  sound : s'.Sound
  setting : SameSetting s s'
  fate : ∀ l, Disk.SameAt s.disk s'.disk l ∨
    (store.Expired time names s l ∧ s'.disk.get? l = none)

namespace Cleared

variable {store : Store} {time : Moment} {names : List Name} {s s' s'' : FileSystem}

theorem refl (hs : s.Sound) : Cleared store time names s s :=
  ⟨hs, .refl s, fun l => .inl (.refl _ l)⟩

/-- No way is opened. -/
theorem keepsWays_back (h : Cleared store time names s s') : Disk.KeepsWays s'.disk s.disk := by
  refine Disk.keepsWays_of_sameAt fun l n hn _ => ?_
  rcases h.fate l with hsame | ⟨-, hnone⟩
  · exact hsame.symm
  · rw [hnone] at hn
    cases hn

theorem expired_back (h : Cleared store time names s s') {l : Location}
    (hl : store.Expired time names s' l) : store.Expired time names s l := by
  obtain ⟨name, dir, n, rfl, hname, hreach, hn, hdir, hbefore⟩ := hl
  refine ⟨name, dir, n, rfl, hname, ?_, ?_, hdir, hbefore⟩
  · exact hreach.mono h.keepsWays_back h.setting.workingDir.symm
  · rcases h.fate (name :: dir) with hsame | ⟨-, hnone⟩
    · exact hsame.symm.eq_some hn hdir
    · rw [hnone] at hn
      cases hn

theorem trans (h : Cleared store time names s s') (h' : Cleared store time names s' s'') :
    Cleared store time names s s'' := by
  refine ⟨h'.sound, h.setting.trans h'.setting, fun l => ?_⟩
  rcases h'.fate l with hsame' | ⟨hexpired, hnone⟩
  · rcases h.fate l with hsame | ⟨hexpired, hnone⟩
    · exact .inl (hsame.trans hsame')
    · exact .inr ⟨hexpired, hsame'.none_iff.mp hnone⟩
  · exact .inr ⟨h.expired_back hexpired, hnone⟩

theorem mono (h : Cleared store time names s s') {more : List Name} (hsub : names ⊆ more) :
    Cleared store time more s s' := by
  refine ⟨h.sound, h.setting, fun l => ?_⟩
  rcases h.fate l with hsame | ⟨⟨name, dir, n, hl, hname, hrest⟩, hnone⟩
  · exact .inl hsame
  · exact .inr ⟨⟨name, dir, n, hl, hsub hname, hrest⟩, hnone⟩

end Cleared

/-- An artifact is not among the others. -/
theorem not_isOther_self (n : ArtifactName) : ¬isOther n n.entryName = true := by
  unfold isOther ArtifactName.entryName
  rw [Utf8.decode?_encode]
  simp

/-! ## One entry -/

theorem entryStatus_eq_ok {s : FileSystem} {dir : Path} {name : Name} {status : Status}
    (h : s.entryStatus dir name = .ok status) :
    ∃ l n, s.Reaches dir l ∧ s.disk.get? (name :: l) = some n ∧ status = n.status := by
  unfold entryStatus at h
  obtain ⟨spot, hfollow, h⟩ := bind_eq_ok h
  cases spot with
  | removed base levels => cases h
  | vacant dir name => cases h
  | node l n =>
      cases n with
      | file data t mode => cases h
      | link target t => cases h
      | device t => cases h
      | directory t =>
          dsimp only at h
          split at h
          · rename_i n hn
            cases h
            exact ⟨l, n, reaches_of_follow hfollow, hn, rfl⟩
          · cases h

theorem pruneEntry_cleared {s : FileSystem} (hs : s.Sound) (store : Store) (time : Moment)
    {name : Name} (hplain : Name.IsPlain name) :
    Cleared store time [name] s (s.runFiles (store.pruneEntry time name)).2 := by
  unfold pruneEntry
  rw [runFiles_then, runFiles_ask]
  dsimp only [answer]
  cases hstatus : s.entryStatus store.dir name with
  | error e => exact .refl hs
  | ok status =>
      dsimp only
      obtain ⟨l, n, hreach, hn, rfl⟩ := entryStatus_eq_ok hstatus
      split
      · exact .refl hs
      · rename_i hbefore
        have hbefore : n.modified.before time = true := by simpa [Node.status] using hbefore
        rw [runFiles_then, runFiles_ask]
        dsimp only [answer]
        unfold attempt
        cases hremove : s.remove (store.dir.join ⟨name⟩) with
        | error e =>
            dsimp only
            split <;> exact .refl hs
        | ok s' =>
            obtain ⟨l', n', hreach', hn', hdir, rfl⟩ := remove_join_eq_ok hplain hremove
            -- the entry that is removed is the one whose time was read
            cases hreach.unique hreach'
            rw [hn] at hn'
            cases hn'
            have hother := fun l' (hl : l' ≠ name :: l) =>
              sameAt_drop (hreach.directory hs) hl
            have hnot : ∀ t, s.disk.get? (name :: l) ≠ some (.directory t) := by
              intro t ht
              rw [hn] at ht
              cases ht
              cases hdir
            refine ⟨hs.of_sameAt (hreach.directory hs) hplain hnot hother rfl,
              ⟨rfl, rfl, rfl⟩, fun l' => ?_⟩
            by_cases hl : l' = name :: l
            · subst hl
              exact .inr ⟨⟨name, l, n, rfl, by simp, hreach, hn, hdir, hbefore⟩, get?_drop_self⟩
            · exact .inl (hother l' hl)

/-! ## All entries -/

theorem pruneEntries_cleared {s : FileSystem} (hs : s.Sound) (store : Store) (time : Moment)
    {names : List Name} (hplain : ∀ name ∈ names, Name.IsPlain name) :
    Cleared store time names s (s.runFiles (store.pruneEntries time names)).2 := by
  induction names generalizing s with
  | nil => exact .refl hs
  | cons name rest ih =>
      have hfirst : Cleared store time (name :: rest) s
          (s.runFiles (store.pruneEntry time name)).2 :=
        (pruneEntry_cleared hs store time (hplain name List.mem_cons_self)).mono (by simp)
      -- `ih` speaks of what is expired after the first removal; `trans` takes it back to `s`
      have hrest := (ih hfirst.sound fun name hname =>
        hplain name (List.mem_cons_of_mem _ hname)).mono (List.subset_cons_self name rest)
      unfold pruneEntries
      rw [runFiles_then]
      cases (s.runFiles (store.pruneEntry time name)).1 with
      | error e => exact hfirst
      | ok result =>
          dsimp only
          rw [runFiles_then]
          split <;> exact hfirst.trans hrest

theorem names_eq_ok {s : FileSystem} {p : Path} {names : List Name} (h : s.names p = .ok names) :
    names = [] ∨ ∃ l, s.Reaches p l ∧ names = s.disk.names l := by
  unfold FileSystem.names at h
  obtain ⟨spot, hfollow, h⟩ := bind_eq_ok h
  cases spot with
  | removed base levels => cases h; exact .inl rfl
  | vacant dir name => cases h
  | node l n =>
      cases n with
      | file data t mode => cases h
      | link target t => cases h
      | device t => cases h
      | directory t => cases h; exact .inr ⟨l, reaches_of_follow hfollow, rfl⟩

/-- Pruning removes nothing but expired siblings of the artifact. -/
theorem prune_cleared {s : FileSystem} (hs : s.Sound) (store : Store) (keep : ArtifactName)
    (time : Moment) :
    ∃ names, (∀ name ∈ names, isOther keep name = true) ∧
      Cleared store time names s (s.runFiles (store.prune keep time)).2 := by
  unfold prune
  rw [runFiles_then, runFiles_ask]
  dsimp only [answer]
  cases hnames : s.names store.dir with
  | error e => exact ⟨[], by simp, .refl hs⟩
  | ok names =>
      dsimp only
      refine ⟨names.filter (isOther keep), fun name hname => (List.mem_filter.mp hname).2, ?_⟩
      refine pruneEntries_cleared hs store time fun name hname => ?_
      obtain ⟨hmem, -⟩ := List.mem_filter.mp hname
      -- only a removed directory is listed without being reached, and it is empty
      rcases names_eq_ok hnames with rfl | ⟨l, -, rfl⟩
      · cases hmem
      · obtain ⟨n, hn⟩ := (s.disk.mem_names_iff l name).mp hmem
        exact hs.tree.plain hn

end Store

end TemplateCache
