import TemplateCache.Proofs.Artifact.Length
import TemplateCache.Proofs.Artifact.Recognition
import TemplateCache.Proofs.Store.Contents

/-!
# Expired siblings

Pruning removes the expired siblings of an artifact and nothing else, in whatever order the directory
tells its names. If it answers a number, they are all gone, and that was their number. If it answers
an error, some of them may be gone, and one of them is still there that could not be removed.

An expired sibling cannot be removed if it is a directory. It also cannot if its path is too long.
The directory's own path may be short enough to be opened and read while there is no room for a name
behind it, and all siblings have names of one length: so none can be removed there, just as the
artifact itself could not have been written. Main statement: `prune_removes_expired`.
-/

namespace TemplateCache

open FileSystem
open ArtifactName.Ingredients (outDisk leads_outStore)

namespace Store

/-- Whether an entry is a sibling of an artifact, other than that itself, and older than a time. -/
def isExpired (keep : ArtifactName) (s : FileSystem) (l : Location) (time : Moment) (x : Name) :
    Bool :=
  isOther keep x && isOld s l time x

/-- What pruning may answer, and what it leaves for each of the answers. -/
structure PrunesExpired (store : Store) (keep : ArtifactName) (time : Moment) (l : Location)
    (s : FileSystem) (result : Except CompileError Nat × FileSystem) : Prop where
  setting : SameSetting s result.2
  /-- Outside of the directory nothing changes. -/
  others : ∀ l', (∀ x, l' ≠ x :: l) → Untouched store.dir s result.2 l'
  /-- A number is answered if all expired entries can be removed, and only then. -/
  answers : (∃ n, result.1 = .ok n) ↔ ∀ x, isExpired keep s l time x = true →
    store.CanAsk keep ∧ ∀ t, s.disk.get? (x :: l) ≠ some (.directory t)
  removed : ∀ n, result.1 = .ok n →
    n = (s.disk.names l).countP (isExpired keep s l time) ∧
    ∀ x, result.2.disk.get? (x :: l) =
      if isExpired keep s l time x then none else s.disk.get? (x :: l)
  /-- Before an error only expired entries go, and the one that it is about stays. -/
  failed : ∀ e, result.1 = .error e →
    (∀ x, result.2.disk.get? (x :: l) = s.disk.get? (x :: l) ∨
      isExpired keep s l time x = true ∧ result.2.disk.get? (x :: l) = none) ∧
    result.2.disk.get? (keep.entryName :: l) = s.disk.get? (keep.entryName :: l) ∧
    ∃ x cause, e = .unwritable (store.dir.join ⟨x⟩) cause ∧ isExpired keep s l time x = true ∧
      result.2.disk.get? (x :: l) = s.disk.get? (x :: l) ∧
      (cause = .isDirectory ∧ (∃ t, s.disk.get? (x :: l) = some (.directory t)) ∨
        cause = .tooLong ∧ ¬store.CanAsk keep ∧
          ∀ y, result.2.disk.get? (y :: l) = s.disk.get? (y :: l))

variable {s : FileSystem} {store : Store} {l : Location} {time : Moment} {x : Name}

/-! ## Siblings and their paths -/

/-- A sibling's path is as long as the artifact's. -/
theorem canAsk_iff_of_isOther (store : Store) (i : ArtifactName.Ingredients)
    (hother : isOther i.name x = true) :
    store.CanAsk i.name ↔ checkPath (store.dir.join ⟨x⟩) = .ok () ∧ x.length ≤ nameLimit := by
  constructor
  · intro hask
    have haskable := hask.askable_of_isOther hother
    exact ⟨haskable.check, haskable.length⟩
  · rintro ⟨hcheck, hlen⟩
    obtain ⟨text, rfl, hspelt, -⟩ := ArtifactName.spelt_of_isOther i.isWorded_name hother
    have hself := i.isWorded_name.spelt_fileName
    have haskable : Askable store.dir i.name.entryName := by
      refine Askable.of_length_le ⟨hspelt.isPlain, hcheck, hlen⟩ hself.isPlain hself.zero_not_mem ?_
      rw [ArtifactName.entryName, hself.length_encode, hspelt.length_encode]
    exact ⟨haskable.check, haskable.length⟩

/-- Why a sibling cannot be removed: it is a directory, or there is no room for any. -/
theorem refusal_cases (s : FileSystem) (store : Store) (l : Location)
    (i : ArtifactName.Ingredients) (hother : isOther i.name x = true) :
    (store.CanAsk i.name ∧ (∀ t, s.disk.get? (x :: l) ≠ some (.directory t)) ∧
      s.refusal store.dir l x = none) ∨
    (store.CanAsk i.name ∧ (∃ t, s.disk.get? (x :: l) = some (.directory t)) ∧
      s.refusal store.dir l x = some .isDirectory) ∨
    (¬store.CanAsk i.name ∧ s.refusal store.dir l x = some .tooLong) := by
  have hiff := store.canAsk_iff_of_isOther i hother
  by_cases hask : store.CanAsk i.name
  · rw [refusal_of_askable (hask.askable_of_isOther hother)]
    by_cases hdir : (s.disk.get? (x :: l)).any Node.isDirectory = true
    · obtain ⟨node, hnode, htrue⟩ := (Option.any_eq_true ..).mp hdir
      obtain ⟨t, rfl⟩ := Node.isDirectory_iff.mp htrue
      exact .inr (.inl ⟨hask, ⟨t, hnode⟩, if_pos hdir⟩)
    · refine .inl ⟨hask, fun t ht => hdir ?_, if_neg hdir⟩
      rw [ht]
      rfl
  · exact .inr (.inr ⟨hask, if_neg (mt hiff.mpr hask)⟩)

/-- An expired entry is no obstacle just if it can be removed. -/
theorem obstacle_eq_none_iff_of_isExpired (i : ArtifactName.Ingredients)
    (hexpired : isExpired i.name s l time x = true) :
    store.obstacle s l time x = none ↔
      store.CanAsk i.name ∧ ∀ t, s.disk.get? (x :: l) ≠ some (.directory t) := by
  rw [isExpired, Bool.and_eq_true] at hexpired
  unfold obstacle
  rw [if_pos hexpired.2]
  obtain ⟨hask, hnot, heq⟩ | ⟨-, ⟨t, ht⟩, heq⟩ | ⟨hask, heq⟩ :=
    refusal_cases s store l i hexpired.1
  · simpa [heq, hask] using hnot
  · simp [heq, ht]
  · simp [heq, hask]

/-- What pruning stops at is expired, and the error says why it cannot be removed. -/
theorem obstacle_eq_some (i : ArtifactName.Ingredients) (hother : isOther i.name x = true)
    {e : CompileError} (h : store.obstacle s l time x = some e) :
    isExpired i.name s l time x = true ∧ ∃ cause, e = .unwritable (store.dir.join ⟨x⟩) cause ∧
      (cause = .isDirectory ∧ (∃ t, s.disk.get? (x :: l) = some (.directory t)) ∨
        cause = .tooLong ∧ ¬store.CanAsk i.name) := by
  unfold obstacle at h
  split at h
  · rename_i hold
    refine ⟨by rw [isExpired, hother, hold]; rfl, ?_⟩
    obtain ⟨cause, hrefusal, rfl⟩ := Option.map_eq_some_iff.mp h
    obtain ⟨-, -, heq⟩ | ⟨-, hdir, heq⟩ | ⟨hask, heq⟩ :=
      refusal_cases s store l i hother
    · rw [heq] at hrefusal
      cases hrefusal
    · rw [heq] at hrefusal
      cases hrefusal
      exact ⟨_, rfl, .inl ⟨rfl, hdir⟩⟩
    · rw [heq] at hrefusal
      cases hrefusal
      exact ⟨_, rfl, .inr ⟨rfl, hask⟩⟩
  · cases h

/-- The siblings among the names of a directory can be gone through. -/
theorem listed_of_perm (hs : s.Sound) (hclear : s.Clear store.dir)
    (hcheck : checkPath store.dir = .ok ()) (hr : s.Reaches store.dir l)
    (i : ArtifactName.Ingredients) {order : List Name} (horder : order.Perm (s.disk.names l)) :
    store.Listed l (order.filter (isOther i.name)) s := by
  refine ⟨hs, hcheck, hr, ?_, fun x hx => ?_, fun x _ => hclear l hr x⟩
  · exact (horder.nodup_iff.mpr (s.disk.nodup_names l)).sublist List.filter_sublist
  · obtain ⟨text, rfl, hspelt, -⟩ :=
      ArtifactName.spelt_of_isOther i.isWorded_name (List.mem_filter.mp hx).2
    exact ⟨hspelt.isPlain, hspelt.zero_not_mem⟩

/-- The old entries among the siblings of a directory are the expired ones. -/
theorem mem_filter_isOld_iff {keep : ArtifactName} {order : List Name}
    (horder : order.Perm (s.disk.names l)) :
    x ∈ (order.filter (isOther keep)).filter (isOld s l time) ↔
      isExpired keep s l time x = true := by
  rw [isExpired, Bool.and_eq_true, List.mem_filter, List.mem_filter]
  constructor
  · rintro ⟨⟨-, hother⟩, hold⟩
    exact ⟨hother, hold⟩
  · rintro ⟨hother, hold⟩
    exact ⟨⟨horder.mem_iff.mpr (mem_names_of_isOld hold), hother⟩, hold⟩

/-! ## Outcomes -/

/-- Without an obstacle all expired siblings are removed. -/
theorem PrunesExpired.of_free (hs : s.Sound) (hr : s.Reaches store.dir l)
    (i : ArtifactName.Ingredients) {order : List Name} (horder : order.Perm (s.disk.names l))
    (hfree : ∀ x ∈ order.filter (isOther i.name), store.obstacle s l time x = none) :
    PrunesExpired store i.name time l s
      (.ok ((order.filter (isOther i.name)).countP (isOld s l time)),
        s.dropAll l ((order.filter (isOther i.name)).filter (isOld s l time))) where
  setting := dropAll_setting
  others := fun l' hl' => untouched_dropAll hs hr hl'
  answers := by
    refine ⟨fun _ x hx => ?_, fun _ => ⟨_, rfl⟩⟩
    have hmem := List.mem_of_mem_filter ((mem_filter_isOld_iff horder).mpr hx)
    exact (obstacle_eq_none_iff_of_isExpired i hx).mp (hfree x hmem)
  removed := by
    intro n hn
    cases hn
    refine ⟨?_, fun x => ?_⟩
    · rw [List.countP_filter, horder.countP_eq]
      exact List.countP_congr fun x _ => by rw [isExpired, Bool.and_comm]
    · rw [get?_dropAll_entry]
      exact if_congr (mem_filter_isOld_iff horder) rfl rfl
  failed := fun e he => by cases he

/-- An obstacle stays, and the expired siblings after it. -/
theorem PrunesExpired.of_stopped (hs : s.Sound) (hr : s.Reaches store.dir l)
    (i : ArtifactName.Ingredients) {before after : List Name} {stop : Name}
    (hother : ∀ y ∈ before ++ stop :: after, isOther i.name y = true)
    (hnodup : (before ++ stop :: after).Nodup)
    (hbefore : ∀ y ∈ before, store.obstacle s l time y = none) {e : CompileError}
    (hstop : store.obstacle s l time stop = some e) :
    PrunesExpired store i.name time l s
      (.error e, s.dropAll l (before.filter (isOld s l time))) := by
  obtain ⟨hexpired, cause, rfl, hcause⟩ := obstacle_eq_some i (hother stop (by simp)) hstop
  have hgone : ∀ y ∈ before.filter (isOld s l time), isExpired i.name s l time y = true := by
    intro y hy
    obtain ⟨hmem, hold⟩ := List.mem_filter.mp hy
    rw [isExpired, hother y (List.mem_append_left _ hmem), hold]
    rfl
  have hkept : ∀ y, y ∉ before.filter (isOld s l time) →
      (s.dropAll l (before.filter (isOld s l time))).disk.get? (y :: l) =
        s.disk.get? (y :: l) :=
    fun y hy => by rw [get?_dropAll_entry, if_neg hy]
  refine ⟨dropAll_setting, fun l' hl' => untouched_dropAll hs hr hl', ?_, fun n hn => by (cases hn),
    fun e he => ?_⟩
  · refine ⟨fun ⟨n, hn⟩ => by (cases hn), fun hall => ?_⟩
    rw [(obstacle_eq_none_iff_of_isExpired i hexpired).mpr (hall stop hexpired)] at hstop
    cases hstop
  cases he
  refine ⟨fun y => ?_, hkept _ fun hy => ?_, stop, cause, rfl, hexpired, hkept _ fun hy => ?_, ?_⟩
  · by_cases hy : y ∈ before.filter (isOld s l time)
    · exact .inr ⟨hgone y hy, by rw [get?_dropAll_entry, if_pos hy]⟩
    · exact .inl (hkept y hy)
  · have hself := hgone _ hy
    rw [isExpired, Bool.and_eq_true] at hself
    exact not_isOther_self i.name hself.1
  · exact (List.nodup_append.mp hnodup).2.2 stop (List.mem_of_mem_filter hy) stop
      List.mem_cons_self rfl
  · rcases hcause with ⟨rfl, hdir⟩ | ⟨rfl, hask⟩
    · exact .inl ⟨rfl, hdir⟩
    -- where one sibling cannot be asked for, none was removed before
    · refine .inr ⟨rfl, hask, fun y => hkept y fun hy => ?_⟩
      have hnone := hbefore y (List.mem_of_mem_filter hy)
      exact hask ((obstacle_eq_none_iff_of_isExpired i (hgone y hy)).mp hnone).1

theorem pruneEntries_prunesExpired (hs : s.Sound) (hclear : s.Clear store.dir)
    (hcheck : checkPath store.dir = .ok ()) (hr : s.Reaches store.dir l)
    (i : ArtifactName.Ingredients) (time : Moment) {order : List Name}
    (horder : order.Perm (s.disk.names l)) :
    PrunesExpired store i.name time l s
      (s.runFiles (store.pruneEntries time (order.filter (isOther i.name)))) := by
  have hlisted := listed_of_perm hs hclear hcheck hr i horder
  cases hfind : (order.filter (isOther i.name)).findSome? (store.obstacle s l time) with
  | none =>
      have hfree := List.findSome?_eq_none_iff.mp hfind
      rw [pruneEntries_of_free hlisted time hfree]
      exact .of_free hs hr i horder hfree
  | some e =>
      obtain ⟨before, stop, after, hsplit, hstop, hbefore⟩ := List.findSome?_eq_some_iff.mp hfind
      have hdone : (before ++ stop :: after).takeWhile
          (fun x => (store.obstacle s l time x).isNone) = before := by
        rw [List.takeWhile_append_of_pos fun y hy => by rw [hbefore y hy]; rfl,
          List.takeWhile_cons_of_neg (by simp [hstop]), List.append_nil]
      rw [pruneEntries_eq hlisted, hfind, hsplit, hdone]
      exact .of_stopped hs hr i (fun y hy => (List.mem_filter.mp (hsplit ▸ hy)).2)
        (hsplit ▸ hlisted.nodup) hbefore hstop

/-- Pruning goes through the names in the order of the disk. -/
theorem prune_prunesExpired (store : Store) (hs : s.Sound) (hclear : s.Clear store.dir)
    (hcheck : checkPath store.dir = .ok ()) (hr : s.Reaches store.dir l)
    (i : ArtifactName.Ingredients) (time : Moment) :
    PrunesExpired store i.name time l s (s.runFiles (store.prune i.name time)) := by
  rw [prune_eq hs hcheck hr]
  exact pruneEntries_prunesExpired hs hclear hcheck hr i time (.refl _)

/-- **Pruning removes exactly the expired siblings.** It does so for every system with a store's
directory that is clear of its own entries, every artifact and every time, in whatever order the
directory's names are told; the order of the disk is one of them. -/
theorem prune_removes_expired (hs : s.Sound) (hclear : s.Clear store.dir) {t : Moment}
    (hfollow : s.follow store.dir = .ok (.node l (.directory t))) (i : ArtifactName.Ingredients)
    (time : Moment) :
    (∀ order : List Name, order.Perm (s.disk.names l) →
      PrunesExpired store i.name time l s
        (s.runFiles (store.pruneEntries time (order.filter (isOther i.name))))) ∧
    PrunesExpired store i.name time l s (s.runFiles (store.prune i.name time)) := by
  have hcheck := (follow_eq_ok_iff.mp hfollow).1
  have hr := reaches_of_follow hfollow
  exact ⟨fun order horder => pruneEntries_prunesExpired hs hclear hcheck hr i time horder,
    store.prune_prunesExpired hs hclear hcheck hr i time⟩

/-! ### Siblings of all kinds -/

/-- What the name of an artifact in `/out` is made of. -/
def keptIngredients : ArtifactName.Ingredients where
  source := .ofString "/m/a.php"
  fingerprint := Utf8.ofString "identity/1"
  optionsKey := []
  contents := Utf8.ofString "x"

/-- Its sibling whose key is one digit over and over. -/
def siblingOf (digit : Char) : Name :=
  Utf8.encode (keptIngredients.name.fileNameWith (List.replicate 32 digit))

/-- Beside the artifact there are a link to nothing, two files and a directory. -/
def mixedSystem : FileSystem where
  disk := ((((outDisk.set [keptIngredients.name.entryName, Utf8.ofString "out"]
    (.file [1] ⟨1, 0⟩ fileMode)).set [siblingOf 'a', Utf8.ofString "out"]
    (.link (.ofString "nothing") ⟨1, 0⟩)).set [siblingOf 'b', Utf8.ofString "out"]
    (.file [2] ⟨4, 999999999⟩ fileMode)).set [siblingOf 'c', Utf8.ofString "out"]
    (.file [3] ⟨5, 0⟩ fileMode)).set [siblingOf 'd', Utf8.ofString "out"] (.directory ⟨7, 0⟩)
  workingDir := .inside []
  now := ⟨8, 0⟩
  resources := .none
  seed := 0

theorem sound_mixedSystem : mixedSystem.Sound :=
  ⟨Disk.isTree_of_hangs (by decide +kernel) (by decide +kernel), ⟨⟨0, 0⟩, by decide +kernel⟩⟩

theorem clear_mixedSystem : mixedSystem.Clear (.ofString "/out") := by
  have hout : mixedSystem.disk.get? [Utf8.ofString "out"] = some (.directory ⟨0, 0⟩) := by
    decide +kernel
  exact clear_of_leads (leads_outStore hout)

/-- The directory is not expired at first, and the entries that are go, in any order; the one written
at the very time is not. When the directory has expired, no order gets around it. -/
theorem prune_mixed :
    mixedSystem.Sound ∧ mixedSystem.Clear (.ofString "/out") ∧
    mixedSystem.follow (.ofString "/out") =
      .ok (.node [Utf8.ofString "out"] (.directory ⟨0, 0⟩)) ∧
    ∀ order : List Name, order.Perm (mixedSystem.disk.names [Utf8.ofString "out"]) →
      (let early := mixedSystem.runFiles ((⟨.ofString "/out"⟩ : Store).pruneEntries ⟨5, 0⟩
         (order.filter (isOther keptIngredients.name)))
       early.1 = .ok 2 ∧
       early.2.disk.get? [siblingOf 'a', Utf8.ofString "out"] = none ∧
       early.2.disk.get? [siblingOf 'c', Utf8.ofString "out"] = some (.file [3] ⟨5, 0⟩ fileMode)) ∧
      (let late := mixedSystem.runFiles ((⟨.ofString "/out"⟩ : Store).pruneEntries ⟨8, 0⟩
         (order.filter (isOther keptIngredients.name)))
       (∃ e, late.1 = .error e) ∧
       late.2.disk.get? [keptIngredients.name.entryName, Utf8.ofString "out"] =
         some (.file [1] ⟨1, 0⟩ fileMode)) := by
  have hfollow : mixedSystem.follow (.ofString "/out") =
      .ok (.node [Utf8.ofString "out"] (.directory ⟨0, 0⟩)) := by
    decide +kernel
  have hask : (⟨.ofString "/out"⟩ : Store).CanAsk keptIngredients.name :=
    ⟨by decide +kernel, by decide +kernel⟩
  refine ⟨sound_mixedSystem, clear_mixedSystem, hfollow, fun order horder => ?_⟩
  have hpruned (time : Moment) : PrunesExpired ⟨.ofString "/out"⟩ keptIngredients.name time
      [Utf8.ofString "out"] mixedSystem (mixedSystem.runFiles
        ((⟨.ofString "/out"⟩ : Store).pruneEntries time
          (order.filter (isOther keptIngredients.name)))) :=
    (prune_removes_expired sound_mixedSystem clear_mixedSystem hfollow keptIngredients time).1
      order horder
  refine ⟨?_, ?_⟩
  · obtain ⟨n, hn⟩ := (hpruned ⟨5, 0⟩).answers.mpr fun x hx => by
      refine ⟨hask, fun t ht => ?_⟩
      have hyoung : mixedSystem.disk.nodes.all (fun entry => entry.1.length != 2 ||
          !entry.2.isDirectory || !entry.2.modified.before ⟨5, 0⟩) = true := by
        decide +kernel
      have hentry := List.all_eq_true.mp hyoung _ ((Disk.get?_eq_some_iff _ _ _).mp ht)
      rw [isExpired, isOld, ht, Bool.and_eq_true] at hx
      rw [show Node.modified (.directory t) = t from rfl] at hentry
      have hbefore : t.before ⟨5, 0⟩ = true := hx.2
      rw [hbefore] at hentry
      cases hentry
    obtain ⟨hcount, hentries⟩ := (hpruned ⟨5, 0⟩).removed n hn
    have htwo : (mixedSystem.disk.names [Utf8.ofString "out"]).countP
        (isExpired keptIngredients.name mixedSystem [Utf8.ofString "out"] ⟨5, 0⟩) = 2 := by
      decide +kernel
    refine ⟨by rw [hn, hcount, htwo], ?_, ?_⟩
    · rw [hentries, if_pos (by decide +kernel)]
    · rw [hentries, if_neg (by decide +kernel)]
      decide +kernel
  · cases hlate : (mixedSystem.runFiles ((⟨.ofString "/out"⟩ : Store).pruneEntries ⟨8, 0⟩
        (order.filter (isOther keptIngredients.name)))).1 with
    | ok n =>
        have hdir : mixedSystem.disk.get? [siblingOf 'd', Utf8.ofString "out"] =
            some (.directory ⟨7, 0⟩) := by
          decide +kernel
        exact absurd hdir
          (((hpruned ⟨8, 0⟩).answers.mp ⟨n, hlate⟩ (siblingOf 'd') (by decide +kernel)).2 _)
    | error e =>
        obtain ⟨-, hkeep, -⟩ := (hpruned ⟨8, 0⟩).failed e hlate
        exact ⟨⟨e, hlate⟩, hkeep.trans (by decide +kernel)⟩

/-! ### No room behind the directory -/

/-- A path that goes up and down again so many times and comes to the same directory. -/
def windingPath : Nat → Path
  | 0 => .ofString "/tmp/out"
  | turns + 1 => ⟨(windingPath turns).bytes ++ Utf8.ofString "/../out"⟩

/-- The directory, with one old artifact in it. -/
def windingSystem : FileSystem where
  disk := ⟨[([], .directory ⟨0, 0⟩), ([Utf8.ofString "tmp"], .directory ⟨0, 0⟩),
    ([Utf8.ofString "out", Utf8.ofString "tmp"], .directory ⟨0, 0⟩),
    ([siblingOf '0', Utf8.ofString "out", Utf8.ofString "tmp"], .file [1] ⟨1, 0⟩ fileMode)],
    by simp⟩
  workingDir := .inside []
  now := ⟨8, 0⟩
  resources := .none
  seed := 0

theorem sound_windingSystem : windingSystem.Sound :=
  ⟨Disk.isTree_of_hangs (by decide +kernel) (by decide +kernel), ⟨⟨0, 0⟩, by decide +kernel⟩⟩

theorem length_windingPath (turns : Nat) :
    (windingPath turns).bytes.length = 8 + 7 * turns := by
  induction turns with
  | zero => decide
  | succ turns ih =>
      have hmore : (Utf8.ofString "/../out").length = 7 := by decide
      rw [windingPath, List.length_append, ih, hmore]
      omega

theorem checkPath_windingPath {turns : Nat} (h : 8 + 7 * turns < pathLimit) :
    checkPath (windingPath turns) = .ok () := by
  refine checkPath_eq_ok_iff.mpr ⟨?_, fun hnil => ?_, by rwa [length_windingPath]⟩
  · clear h
    induction turns with
    | zero => decide
    | succ turns ih => exact fun hmem => (List.mem_append.mp hmem).elim ih (by decide)
  · have hlength := length_windingPath turns
    rw [hnil, List.length_nil] at hlength
    omega

theorem leads_windingPath (turns : Nat) :
    windingSystem.disk.Leads linkLimit (windingSystem.workingDir.start (windingPath turns))
      (windingPath turns).segments linkLimit
      (.inside [Utf8.ofString "out", Utf8.ofString "tmp"]) := by
  have htmp : windingSystem.disk.get? [Utf8.ofString "tmp"] = some (.directory ⟨0, 0⟩) := by
    decide +kernel
  have hout : windingSystem.disk.get? [Utf8.ofString "out", Utf8.ofString "tmp"] =
      some (.directory ⟨0, 0⟩) := by
    decide +kernel
  have hstart : windingSystem.workingDir.start (windingPath turns) = .inside [] := by
    unfold Place.start
    split <;> rfl
  rw [hstart]
  induction turns with
  | zero =>
      have hsegments : (windingPath 0).segments =
          [.name (Utf8.ofString "tmp"), .name (Utf8.ofString "out")] := by
        decide
      rw [hsegments]
      exact .into (by decide) htmp (.into (by decide) hout .stay)
  | succ turns ih =>
      have hsegments : (windingPath (turns + 1)).segments =
          (windingPath turns).segments ++ [.up, .name (Utf8.ofString "out")] := by
        have hmore : Path.segments ⟨Utf8.ofString "../out"⟩ =
            [.up, .name (Utf8.ofString "out")] := by
          decide
        rw [← hmore]
        exact Path.segments_append (windingPath turns).bytes (Utf8.ofString "../out")
      rw [hsegments]
      refine (ih ?_).trans (.up (.into (by decide) hout .stay))
      unfold Place.start
      split <;> rfl

/-- With 577 turns the path has 4047 bytes, and there is no room for a name behind it. -/
theorem not_canAsk_windingPath : ¬(⟨windingPath 577⟩ : Store).CanAsk keptIngredients.name := by
  rintro ⟨hcheck, -⟩
  have hlong := (checkPath_eq_ok_iff.mp hcheck).2.2
  have hname : 70 ≤ keptIngredients.name.entryName.length :=
    ArtifactName.leastLength_le _ _ _ _
  have hdir := length_windingPath 577
  have hjoin : (windingPath 577).bytes.length + keptIngredients.name.entryName.length ≤
      ((⟨windingPath 577⟩ : Store).artifactPath keptIngredients.name).bytes.length :=
    Path.length_le_join_name _ keptIngredients.isWorded_name.spelt_fileName.isPlain
  have hlimit : pathLimit = 4096 := rfl
  omega

/-- The store is there, and the one entry that has expired is a file. Pruning fails all the same, and
the file stays. -/
theorem expired_file_not_pruned :
    windingSystem.Sound ∧ windingSystem.Clear (windingPath 577) ∧
    (∃ t, windingSystem.follow (windingPath 577) =
      .ok (.node [Utf8.ofString "out", Utf8.ofString "tmp"] (.directory t))) ∧
    (∀ x t, windingSystem.disk.get? [x, Utf8.ofString "out", Utf8.ofString "tmp"] ≠
      some (.directory t)) ∧
    ∃ x, isExpired keptIngredients.name windingSystem
        [Utf8.ofString "out", Utf8.ofString "tmp"] ⟨5, 0⟩ x = true ∧
      (windingSystem.runFiles
        ((⟨windingPath 577⟩ : Store).prune keptIngredients.name ⟨5, 0⟩)).1 =
          .error (.unwritable ((windingPath 577).join ⟨x⟩) .tooLong) ∧
      (windingSystem.runFiles
        ((⟨windingPath 577⟩ : Store).prune keptIngredients.name ⟨5, 0⟩)).2.disk.get?
          [x, Utf8.ofString "out", Utf8.ofString "tmp"] =
        windingSystem.disk.get? [x, Utf8.ofString "out", Utf8.ofString "tmp"] := by
  have hcheck : checkPath (windingPath 577) = .ok () := checkPath_windingPath (by decide)
  have hclear := clear_of_leads (leads_windingPath 577)
  have hr : windingSystem.Reaches (windingPath 577) _ := ⟨_, leads_windingPath 577⟩
  have hno : ∀ x t, windingSystem.disk.get? [x, Utf8.ofString "out", Utf8.ofString "tmp"] ≠
      some (.directory t) := by
    have hnodes : windingSystem.disk.nodes.all (fun entry =>
        entry.1.length != 3 || !entry.2.isDirectory) = true := by
      decide +kernel
    intro x t hdir
    cases List.all_eq_true.mp hnodes _ ((Disk.get?_eq_some_iff _ _ _).mp hdir)
  have hpruned := prune_prunesExpired ⟨windingPath 577⟩ sound_windingSystem hclear hcheck hr
    keptIngredients ⟨5, 0⟩
  refine ⟨sound_windingSystem, hclear, follow_of_reaches sound_windingSystem hcheck hr, hno, ?_⟩
  cases hanswer : (windingSystem.runFiles
      ((⟨windingPath 577⟩ : Store).prune keptIngredients.name ⟨5, 0⟩)).1 with
  | ok n =>
      have hall := hpruned.answers.mp ⟨n, hanswer⟩ (siblingOf '0') (by decide +kernel)
      exact absurd hall.1 not_canAsk_windingPath
  | error e =>
      obtain ⟨-, -, x, cause, rfl, hexpired, hstays, ⟨-, t, hdir⟩ | ⟨rfl, -⟩⟩ :=
        hpruned.failed e hanswer
      · exact absurd hdir (hno x t)
      · exact ⟨x, hexpired, rfl, hstays⟩

end Store

end TemplateCache
