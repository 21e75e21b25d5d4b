import TemplateCache.Proofs.Artifact.Length
import TemplateCache.Proofs.FileSystem.Passing
import TemplateCache.Proofs.FileSystem.Reading
import TemplateCache.Proofs.Store.Calls

/-!
# All or nothing

An artifact is written in full or not at all, whichever calls of the writing fail and whatever has
the artifact's name before. If writing answers a path, the artifact stands there, in the place of what
had its name: nothing, a file or a link, be it to something or to nothing. It does not write through
the link. If it answers an error, which it also does when the name is a directory's, all entries are
what they were. There is no temporary file left over either way.

The artifact can be found again by its path only if that does not lead over the entry that was
replaced, so the store has to be clear of its own entries. Main statement: `write_all_or_nothing`.
-/

namespace TemplateCache

open FileSystem
open ArtifactName.Ingredients (outStore outDisk leads_outStore)

namespace Store

/-! ## Outcomes -/

/-- An artifact was put into a directory, and nothing else is different. -/
structure Placed (store : Store) (n : ArtifactName) (data : Bytes) (l : Location)
    (s s' : FileSystem) : Prop where
  reaches : s.Reaches store.dir l
  reaches_after : s'.Reaches store.dir l
  /-- The artifact's path names a regular file, which is what it leads to. -/
  entry : s'.entry (store.artifactPath n) =
    .ok (.node (n.entryName :: l) (.file data s.now fileMode))
  follow : s'.follow (store.artifactPath n) =
    .ok (.node (n.entryName :: l) (.file data s.now fileMode))
  replaced : ∀ t, s.disk.get? (n.entryName :: l) ≠ some (.directory t)
  /-- What a link led to that had the artifact's name is elsewhere, and as it was. -/
  target : ∀ target t l' node, s.disk.get? (n.entryName :: l) = some (.link target t) →
    s.follow (store.artifactPath n) = .ok (.node l' node) →
      l' ≠ n.entryName :: l ∧ Untouched store.dir s s' l'
  others : ∀ l', l' ≠ n.entryName :: l → Untouched store.dir s s' l'

/-- What writing an artifact may answer, and what it leaves for each of the answers. -/
structure AllOrNothing (store : Store) (n : ArtifactName) (data : Bytes) (s : FileSystem)
    (result : Except CompileError Path × FileSystem) : Prop where
  sound : result.2.Sound
  setting : SameSetting s result.2
  all : ∀ p, result.1 = .ok p → p = store.artifactPath n ∧ ∃ l, Placed store n data l s result.2
  nothing : ∀ e, result.1 = .error e → (∀ l, Untouched store.dir s result.2 l) ∧
    ∀ l name, s.Reaches store.dir l →
      result.2.disk.get? (name :: l) = s.disk.get? (name :: l)
  /-- Under names of temporary files there is what there was. -/
  clean : ∀ l k, s.Reaches store.dir l →
    result.2.disk.get? (temporaryName k :: l) = s.disk.get? (temporaryName k :: l)

variable {s : FileSystem} {store : Store} {n : ArtifactName} {data : Bytes} {l : Location} {k : Nat}

/-- An error leaves everything where it left nothing but a new time of the store's directory. -/
theorem AllOrNothing.of_untouched (hs : s.Sound) {s' : FileSystem} (e : CompileError)
    (hsetting : SameSetting s s') (h : ∀ l, Untouched store.dir s s' l) :
    AllOrNothing store n data s (.error e, s') where
  sound := hs.of_same (fun l => (h l).sameAt hs) hsetting.workingDir
  setting := hsetting
  all := fun p hp => by cases hp
  nothing := fun _ _ => ⟨h, fun l name hr => (h (name :: l)).entry hr⟩
  clean := fun l k hr => (h (temporaryName k :: l)).entry hr

theorem untouched_of_discarded (hs : s.Sound) (h : s.Room store.dir l k) (node : Node)
    (l' : Location) :
    Untouched store.dir s ((s.withTemporary l k node).drop l (temporaryName k)) l' := by
  have hget : ((s.withTemporary l k node).drop l (temporaryName k)).disk.get? l' = _ :=
    h.get?_discarded l'
  by_cases hl' : l' = l
  · subst hl'
    rw [if_pos rfl] at hget
    exact untouched_of_directory hs h.reaches hget
  · rw [if_neg hl'] at hget
    exact .inl hget

/-- A temporary file that takes the artifact's name is the artifact, and leaves no other trace. -/
theorem untouched_of_renamed (hs : s.Sound) (h : s.Room store.dir l k) {l' : Location}
    (hl' : l' ≠ n.entryName :: l) :
    Untouched store.dir s (((s.withTemporary l k (.file data s.now fileMode)).drop l
      (temporaryName k)).put l n.entryName (.file data s.now fileMode)) l' := by
  by_cases hdir : l' = l
  · subst hdir
    refine untouched_of_directory hs h.reaches ?_
    rw [get?_put_dir, h.get?_discarded, if_pos rfl]
    cases s.disk.get? l' with
    | none => rfl
    | some node => exact congrArg some (node.withModified_withModified _ _)
  · rw [Untouched, get?_put_of_ne hl' hdir, h.get?_discarded, if_neg hdir]
    exact .inl rfl

theorem AllOrNothing.of_renamed (hs : s.Sound) (hclear : s.Clear store.dir) (hn : n.IsProper)
    (h : s.Room store.dir l k) (hask : store.CanAsk n)
    (hreplaced : ∀ t, s.disk.get? (n.entryName :: l) ≠ some (.directory t)) :
    AllOrNothing store n data s (.ok (store.artifactPath n),
      ((s.withTemporary l k (.file data s.now fileMode)).drop l (temporaryName k)).put l
        n.entryName (.file data s.now fileMode)) := by
  have hothers : ∀ l', l' ≠ n.entryName :: l → Untouched store.dir s
      (((s.withTemporary l k (.file data s.now fileMode)).drop l (temporaryName k)).put l
        n.entryName (.file data s.now fileMode)) l' :=
    fun l' hl' => untouched_of_renamed hs h hl'
  have hsetting : SameSetting s (((s.withTemporary l k (.file data s.now fileMode)).drop l
      (temporaryName k)).put l n.entryName (.file data s.now fileMode)) := ⟨rfl, rfl, rfl⟩
  have hfile : (((s.withTemporary l k (.file data s.now fileMode)).drop l
      (temporaryName k)).put l n.entryName (.file data s.now fileMode)).disk.get?
        (n.entryName :: l) = some (.file data s.now fileMode) := get?_put_self
  generalize ((s.withTemporary l k (.file data s.now fileMode)).drop l
    (temporaryName k)).put l n.entryName (.file data s.now fileMode) = s' at *
  -- only an entry changed that is on no way to the store
  have hreaches : s'.Reaches store.dir l := by
    refine h.reaches.of_uncrossed hsetting.workingDir fun l' => ?_
    by_cases hl' : l' = n.entryName :: l
    · subst hl'
      exact .inr ⟨hreplaced, hclear l h.reaches n.entryName⟩
    · exact .inl ((hothers l' hl').sameAt hs)
  have hentry := entry_of_reaches hn.plain hask hreaches hfile
  refine ⟨hs.of_sameAt (h.reaches.directory hs) hn.plain hreplaced
    (fun l' hl' => (hothers l' hl').sameAt hs) hsetting.workingDir, hsetting, ?_, ?_, ?_⟩
  · intro p hp
    cases hp
    refine ⟨rfl, l, h.reaches, hreaches, hentry, follow_of_entry hn.plain hentry, hreplaced,
      fun target t l' node hlink hfollow => ?_, hothers⟩
    have hne : l' ≠ n.entryName :: l := by
      rintro rfl
      have hnode := (follow_eq_ok_iff.mp hfollow).2.get?
      rw [hlink] at hnode
      cases hnode
      exact ne_link_of_follow hs hfollow target t rfl
    exact ⟨hne, hothers l' hne⟩
  · intro e he
    cases he
  · intro l' k' hr
    cases hr.unique h.reaches
    refine (hothers _ fun e => ?_).entry h.reaches
    exact hn.notTemporary k' (List.cons.inj e).1

theorem writeUnder_allOrNothing (hs : s.Sound) (hclear : s.Clear store.dir) (hn : n.IsProper)
    (data : Bytes) (faults : Faults) :
    AllOrNothing store n data s (store.writeUnder faults n data s) := by
  obtain ⟨e, hrun⟩ | ⟨e, l, k, node, hroom, hrun⟩ | ⟨l, k, hroom, hask, hreplaced, hrun⟩ :=
    store.writeUnder_cases data hs hn faults
  · rw [hrun]
    exact .of_untouched hs e (.refl s) fun l => .inl rfl
  · rw [hrun]
    exact .of_untouched hs e ⟨rfl, rfl, rfl⟩ (untouched_of_discarded hs hroom node)
  · rw [hrun]
    exact .of_renamed hs hclear hn hroom hask hreplaced

/-- **Writing an artifact is all or nothing.** It is so for every system, every store that is clear of
its own entries, whatever has the artifact's name, and whichever of the calls fail. Where none of them
fails, the calls are what `write` does; and where a temporary file can be made and the artifact's path
be asked for, nothing but a directory under its name keeps it from being written. -/
theorem write_all_or_nothing (hs : s.Sound) (hclear : s.Clear store.dir)
    (i : ArtifactName.Ingredients) (data : Bytes) :
    AllOrNothing store i.name data s (s.runFiles (store.write i.name data)) ∧
    (∀ faults, AllOrNothing store i.name data s (store.writeUnder faults i.name data s)) ∧
    store.writeUnder .none i.name data s = s.runFiles (store.write i.name data) ∧
    (store.CanAsk i.name → (∃ made, s.temporary store.dir data = .ok made) →
      (∀ l t, s.entry (store.artifactPath i.name) ≠ .ok (.node l (.directory t))) →
      (s.runFiles (store.write i.name data)).1 = .ok (store.artifactPath i.name)) := by
  have hcalls := fun faults => writeUnder_allOrNothing hs hclear i.isProper_name data faults
  have hnone := store.writeUnder_none i.name data hs
  refine ⟨hnone ▸ hcalls .none, hcalls, hnone, fun hask hmade hfree => ?_⟩
  obtain ⟨⟨temporary, s₁⟩, hmade⟩ := hmade
  obtain hok | ⟨⟨l, t, hdir⟩, -⟩ := write_of_short hs i.isProper_name hmade hask.1 hask.2
  · exact hok
  · exact absurd hdir (hfree l t)

/-! ### A link under the name -/

/-- What the name of an artifact in `/out` is made of. -/
def linkedIngredients : ArtifactName.Ingredients where
  source := .ofString "/a.html"
  fingerprint := Utf8.ofString "identity/1"
  optionsKey := []
  contents := [1, 2, 3]

/-- A link has the artifact's name and leads to another file. -/
def linkedSystem : FileSystem where
  disk := (outDisk.set [Utf8.ofString "kept"] (.file [5] ⟨1, 0⟩ fileMode)).set
    [linkedIngredients.name.entryName, Utf8.ofString "out"] (.link (.ofString "../kept") ⟨1, 0⟩)
  workingDir := .inside []
  now := ⟨8, 0⟩
  resources := none
  seed := 0

theorem sound_linkedSystem : linkedSystem.Sound :=
  ⟨Disk.isTree_of_hangs (by decide +kernel) (by decide +kernel), ⟨⟨0, 0⟩, by decide +kernel⟩⟩

theorem out_linkedSystem :
    linkedSystem.disk.get? [Utf8.ofString "out"] = some (.directory ⟨0, 0⟩) := by
  decide +kernel

theorem clear_linkedSystem : linkedSystem.Clear outStore.dir :=
  clear_of_leads (leads_outStore out_linkedSystem)

/-- The calls fail when the permissions are to be set. -/
def noPermission : Faults := { Faults.none with protect := some (.number 1) }

/-- The link is replaced, and what it led to is as it was. Where the permissions cannot be set, the
link is as it was too. -/
theorem write_replaces_link :
    linkedSystem.Sound ∧ linkedSystem.Clear outStore.dir ∧
    linkedSystem.follow (outStore.artifactPath linkedIngredients.name) =
      .ok (.node [Utf8.ofString "kept"] (.file [5] ⟨1, 0⟩ fileMode)) ∧
    (let written := linkedSystem.runFiles (outStore.write linkedIngredients.name [7, 8])
     written.1 = .ok (outStore.artifactPath linkedIngredients.name) ∧
     written.2.entry (outStore.artifactPath linkedIngredients.name) =
       .ok (.node [linkedIngredients.name.entryName, Utf8.ofString "out"]
         (.file [7, 8] ⟨8, 0⟩ fileMode)) ∧
     Untouched outStore.dir linkedSystem written.2 [Utf8.ofString "kept"]) ∧
    (let failed := outStore.writeUnder noPermission linkedIngredients.name [7, 8] linkedSystem
     failed.1 = .error (.unwritable (.ofString "/out/.tmp000000") (.number 1)) ∧
     failed.2.disk.get? [linkedIngredients.name.entryName, Utf8.ofString "out"] =
       some (.link (.ofString "../kept") ⟨1, 0⟩)) := by
  have hlink : linkedSystem.disk.get? [linkedIngredients.name.entryName, Utf8.ofString "out"] =
      some (.link (.ofString "../kept") ⟨1, 0⟩) := by
    decide +kernel
  have hfollow : linkedSystem.follow (outStore.artifactPath linkedIngredients.name) =
      .ok (.node [Utf8.ofString "kept"] (.file [5] ⟨1, 0⟩ fileMode)) := by
    decide +kernel
  obtain ⟨hwrite, hcalls, -⟩ :=
    write_all_or_nothing sound_linkedSystem clear_linkedSystem linkedIngredients [7, 8]
  refine ⟨sound_linkedSystem, clear_linkedSystem, hfollow, ?_, ?_⟩
  · have hanswer : (linkedSystem.runFiles (outStore.write linkedIngredients.name [7, 8])).1 =
        .ok (outStore.artifactPath linkedIngredients.name) := by
      decide +kernel
    obtain ⟨-, l, hplaced⟩ := hwrite.all _ hanswer
    cases hplaced.reaches.unique ⟨_, leads_outStore out_linkedSystem⟩
    exact ⟨hanswer, hplaced.entry, (hplaced.target _ _ _ _ hlink hfollow).2⟩
  · have hanswer : (outStore.writeUnder noPermission linkedIngredients.name [7, 8]
        linkedSystem).1 = .error (.unwritable (.ofString "/out/.tmp000000") (.number 1)) := by
      decide +kernel
    obtain ⟨-, hentries⟩ := (hcalls noPermission).nothing _ hanswer
    exact ⟨hanswer, (hentries _ _ ⟨_, leads_outStore out_linkedSystem⟩).trans hlink⟩

end Store

end TemplateCache
