import Mathlib.Order.Defs.PartialOrder
import TemplateCache.Proofs.Concurrent.Finding
import TemplateCache.Proofs.Concurrent.Ground
import TemplateCache.Proofs.Store.Looking

/-!
# A source that is edited while calls for it overlap

A call that is slow may have read what the source held long ago, and prunes by the time that the
source has now. What it must not remove is the artifact of what the source holds now. That artifact
is told from older ones by its time, which is never before the source's: `Watch.Fine` says so of
every directory where it was not there at first. It follows that to prune by any time that the
source has had is to spare it.

Contents that come back spoil this, for their artifact may be there from before, and so may be a
temporary file of a call that read them before. Hence the artifact that is watched is that of the
*latest* contents, which the source holds once and then keeps.

This module says what is always true and what every single step may do (`Watch.pact`), and that
each request by which a call changes files is such a step.
-/

namespace TemplateCache

open FileSystem

/-! ## Times -/

theorem Moment.before_eq_false_iff {s t : Moment} : t.before s = false ↔
    s.seconds < t.seconds ∨ s.seconds = t.seconds ∧ s.nanoseconds ≤ t.nanoseconds := by
  simp only [before, Bool.or_eq_false_iff, decide_eq_false_iff_not, Bool.and_eq_false_iff,
    beq_eq_false_iff_ne]
  omega

/-- Points in time in their order. -/
instance : Preorder Moment where
  le := fun s t => t.before s = false
  le_refl := fun _ => Moment.before_eq_false_iff.mpr (.inr ⟨rfl, Nat.le_refl _⟩)
  le_trans := fun s t u h h' => by
    rw [Moment.before_eq_false_iff] at h h' ⊢
    omega

theorem Moment.not_le_of_before {s t : Moment} (h : s.before t = true) : ¬t ≤ s := by
  intro hle
  cases h.symm.trans hle

/-- A directory, or a file that was written at some time or later. -/
def Node.MadeSince (time : Moment) (n : Node) : Prop :=
  n.isDirectory = true ∨ ∃ data t mode, n = .file data t mode ∧ time ≤ t

theorem Node.MadeSince.mono {time since : Moment} {n : Node} (h : n.MadeSince time)
    (hle : since ≤ time) : n.MadeSince since := by
  rcases h with hdir | ⟨data, t, mode, rfl, ht⟩
  · exact .inl hdir
  · exact .inr ⟨data, t, mode, rfl, hle.trans ht⟩

theorem Node.MadeSince.file {time : Moment} {n : Node} (h : n.MadeSince time)
    (hdir : n.isDirectory = false) : ∃ data t mode, n = .file data t mode ∧ time ≤ t := by
  rcases h with htrue | hfile
  · cases hdir.symm.trans htrue
  · exact hfile

namespace Watch

variable (wt : Watch)

/-! ## The pact -/

/-- Where it goes in a directory. -/
def artifact (dir : Location) : Location := wt.name.entryName :: dir

/-- It was not there at first. -/
def New (dir : Location) : Prop := wt.start.disk.get? (wt.artifact dir) = none

/-- The source holds its latest contents since some time. -/
def Latest (s : FileSystem) (since : Moment) : Prop :=
  ∃ data mode, s.disk.get? wt.origin = some (.file data since mode) ∧ wt.nameOf data = wt.name

/-- What may stand for the artifact where it is new: a directory that somebody made, or a file that
is not older than the source with its latest contents. -/
def Live (s : FileSystem) (n : Node) : Prop :=
  n.isDirectory = true ∨ ∃ since, wt.Latest s since ∧ n.MadeSince since

/-- What is true of the files at any time. -/
structure Fine (s : FileSystem) : Prop where
  sound : s.Sound
  resources : s.resources = wt.start.resources
  ground : ∃ g, wt.Ground g s
  clock : ∀ data t mode, s.disk.get? wt.origin = some (.file data t mode) → t ≤ s.now
  live : ∀ l n, wt.New l → s.disk.get? (wt.artifact l) = some n → wt.Live s n

/-- What any step may do. -/
structure Seen (s s' : FileSystem) : Prop where
  directories : ∀ l t, s.disk.get? l = some (.directory t) →
    ∃ t', s'.disk.get? l = some (.directory t')
  reaches : ∀ full l, wt.Full full → s.Reaches full l → s'.Reaches full l
  clock : s.now ≤ s'.now
  /-- The source gets no older, and its latest contents stay. -/
  source : ∀ data t mode, s.disk.get? wt.origin = some (.file data t mode) →
    ∃ data' t' mode', s'.disk.get? wt.origin = some (.file data' t' mode') ∧ t ≤ t' ∧
      (wt.nameOf data = wt.name → data' = data ∧ t' = t)
  kept : ∀ l data t mode, wt.New l → s.disk.get? (wt.artifact l) = some (.file data t mode) →
    ∃ data' t' mode', s'.disk.get? (wt.artifact l) = some (.file data' t' mode')
  temporary : ∀ k l n, s'.disk.get? (temporaryName k :: l) = some n →
    s.disk.get? (temporaryName k :: l) = some n ∨ n.MadeSince s.now

/-- A step, or some of them. -/
structure Moves (s s' : FileSystem) : Prop where
  fine : wt.Fine s'
  seen : wt.Seen s s'

variable {wt} {s s' s'' : FileSystem}

/-- A time that the source has, or had. -/
def Past (wt : Watch) (time : Moment) (s : FileSystem) : Prop :=
  ∀ data t mode, s.disk.get? wt.origin = some (.file data t mode) → time ≤ t

namespace Seen

theorem of_eq (hdisk : s'.disk = s.disk) (hworking : s'.workingDir = s.workingDir)
    (hclock : s.now ≤ s'.now) : wt.Seen s s' where
  directories := fun _ t h => ⟨t, hdisk ▸ h⟩
  reaches := fun _ _ _ h => h.mono (fun _ n hn _ => ⟨n, hdisk ▸ hn, .refl n⟩) hworking
  clock := hclock
  source := fun data t mode h => ⟨data, t, mode, hdisk ▸ h, le_refl t, fun _ => ⟨rfl, rfl⟩⟩
  kept := fun _ data t mode _ h => ⟨data, t, mode, hdisk ▸ h⟩
  temporary := fun _ _ _ h => .inl (hdisk ▸ h)

theorem refl (s : FileSystem) : wt.Seen s s := .of_eq rfl rfl (le_refl _)

theorem trans (h : wt.Seen s s') (h' : wt.Seen s' s'') : wt.Seen s s'' where
  directories := fun l t hdir => by
    obtain ⟨t', hdir'⟩ := h.directories l t hdir
    exact h'.directories l t' hdir'
  reaches := fun full l hfull hreach => h'.reaches full l hfull (h.reaches full l hfull hreach)
  clock := h.clock.trans h'.clock
  source := fun data t mode hfile => by
    obtain ⟨data', t', mode', hfile', hle, hlatest⟩ := h.source data t mode hfile
    obtain ⟨data'', t'', mode'', hfile'', hle', hlatest'⟩ := h'.source data' t' mode' hfile'
    refine ⟨data'', t'', mode'', hfile'', hle.trans hle', fun hname => ?_⟩
    obtain ⟨rfl, rfl⟩ := hlatest hname
    exact hlatest' hname
  kept := fun l data t mode hnew hfile => by
    obtain ⟨data', t', mode', hfile'⟩ := h.kept l data t mode hnew hfile
    exact h'.kept l data' t' mode' hnew hfile'
  temporary := fun k l n hn => by
    rcases h'.temporary k l n hn with hsame | hmade
    · exact h.temporary k l n hsame
    · exact .inr (hmade.mono h.clock)

theorem past (h : wt.Seen s s') {time : Moment} (htime : wt.Past time s)
    (hsource : ∃ data t mode, s.disk.get? wt.origin = some (.file data t mode)) :
    wt.Past time s' := by
  obtain ⟨data, t, mode, hfile⟩ := hsource
  obtain ⟨data', t', mode', hfile', hle, -⟩ := h.source data t mode hfile
  intro data'' t'' mode'' hfile''
  cases hfile'.symm.trans hfile''
  exact (htime data t mode hfile).trans hle

theorem latest (h : wt.Seen s s') {since : Moment} (hlatest : wt.Latest s since) :
    wt.Latest s' since := by
  obtain ⟨data, mode, hfile, hname⟩ := hlatest
  obtain ⟨data', t', mode', hfile', -, hsame⟩ := h.source data since mode hfile
  obtain ⟨rfl, rfl⟩ := hsame hname
  exact ⟨_, mode', hfile', hname⟩

end Seen

theorem Live.seen {n : Node} (h : wt.Live s n) (hseen : wt.Seen s s') : wt.Live s' n := by
  rcases h with hdir | ⟨since, hlatest, hmade⟩
  · exact .inl hdir
  · exact .inr ⟨since, hseen.latest hlatest, hmade⟩

theorem Live.like {n n' : Node} (h : wt.Live s n) (hlike : n.Like n') : wt.Live s n' := by
  rcases hlike with rfl | ⟨-, hdir⟩
  · exact h
  · exact .inl hdir

theorem Moves.refl (h : wt.Fine s) : wt.Moves s s := ⟨h, .refl s⟩

theorem Moves.trans (h : wt.Moves s s') (h' : wt.Moves s' s'') : wt.Moves s s'' :=
  ⟨h'.fine, h.seen.trans h'.seen⟩

/-- What is true at any time. The default directory that is kept, if it was not kept at first, is
the one that a call alone finds. -/
structure Holds (wt : Watch) {ι : Type} (w : Shared ι) : Prop where
  fine : wt.Fine w.system
  held : w.held = wt.held ∨
    ∃ dest, wt.compiler.destinationFrom wt.options ⟨wt.start, wt.held, []⟩ = .ok dest ∧
      w.held = some dest

/-- What the callers rely on. Nothing is noted about them. -/
def pact (wt : Watch) (ι : Type) : Pact ι (Shared ι) (Shared ι) where
  state := id
  Fine := fun w => wt.Holds w
  Seen := fun w w' => wt.Seen w.system w'.system
  Spared := fun _ _ _ => True
  seen_refl := fun w => .refl w.system
  seen_trans := fun h h' => h.trans h'
  spared_refl := fun _ _ => trivial
  spared_trans := fun _ _ => trivial

/-- What may come to stand under a name of a directory. -/
structure Fits (s : FileSystem) (x : Name) (dir : Location) (n : Node) : Prop where
  temporary : ∀ k, x = temporaryName k → n.MadeSince s.now
  live : x = wt.name.entryName → wt.New dir → wt.Live s n

/-! ## Names and places -/

theorem isWorded_nameOf (contents : Bytes) : (wt.nameOf contents).IsWorded :=
  ArtifactName.isWorded_forSource ..

theorem isProper_nameOf (contents : Bytes) : (wt.nameOf contents).IsProper :=
  ArtifactName.isProper_forSource ..

/-- All artifacts of the source are siblings of each other. -/
theorem isSibling_nameOf (contents : Bytes) (text : List Char) :
    (wt.nameOf contents).isSibling text = wt.name.isSibling text := by
  -- they have all but the content key in common, which is not looked at
  have hidentity : (wt.nameOf contents).identity = wt.name.identity := by
    unfold name nameOf Compiler.artifactName ArtifactName.forSource
    dsimp only
  have hextension : (wt.nameOf contents).extension = wt.name.extension := by
    unfold name nameOf Compiler.artifactName ArtifactName.forSource
    dsimp only
  unfold ArtifactName.isSibling
  rw [hidentity, hextension]

theorem isSibling_fileName (contents : Bytes) :
    wt.name.isSibling (wt.nameOf contents).fileName = true :=
  (ArtifactName.isSibling_fileName_iff (isWorded_nameOf _) (isWorded_nameOf _)).mpr ⟨rfl, rfl⟩

/-- The source is not among what is written or removed. -/
theorem cons_ne_origin {text : List Char} (hsibling : wt.name.isSibling text = true)
    (l : Location) : Utf8.encode text :: l ≠ wt.origin :=
  (ArtifactName.ne_cons_of_isSibling hsibling l).symm

namespace Fine

theorem source (h : wt.Fine s) :
    ∃ data t mode, s.disk.get? wt.origin = some (.file data t mode) ∧ t ≤ s.now := by
  obtain ⟨g, hground⟩ := h.ground
  obtain ⟨data, t, mode, hfile⟩ := hground.source
  exact ⟨data, t, mode, hfile, h.clock data t mode hfile⟩

theorem source_file (h : wt.Fine s) :
    ∃ data t mode, s.disk.get? wt.origin = some (.file data t mode) := by
  obtain ⟨data, t, mode, hfile, -⟩ := h.source
  exact ⟨data, t, mode, hfile⟩

theorem workingDir (h : wt.Fine s) : s.workingDir = wt.start.workingDir := by
  obtain ⟨g, hground⟩ := h.ground
  exact hground.workingDir

/-- The source is always where it was. -/
theorem follow (h : wt.Fine s) {data : Bytes} {t : Moment} {mode : Nat}
    (hfile : s.disk.get? wt.origin = some (.file data t mode)) :
    s.follow wt.source = .ok (.node wt.origin (.file data t mode)) := by
  obtain ⟨g, hground⟩ := h.ground
  exact hground.follow hfile

theorem le_now (h : wt.Fine s) {since : Moment} (hlatest : wt.Latest s since) :
    since ≤ s.now := by
  obtain ⟨data, t, mode, hfile, hle⟩ := h.source
  obtain ⟨data', mode', hfile', -⟩ := hlatest
  cases hfile.symm.trans hfile'
  exact hle

/-- What is read is what the source holds. -/
theorem contents (h : wt.Fine s) {contents : Bytes} (hread : s.contents wt.source = .ok contents) :
    ∃ t mode, s.disk.get? wt.origin = some (.file contents t mode) := by
  obtain ⟨data, t, mode, hfile, -⟩ := h.source
  cases (contents_of_follow (h.follow hfile)).symm.trans hread
  exact ⟨t, mode, hfile⟩

theorem canonical (h : wt.Fine s) {canonical : Path}
    (hcanonical : s.canonical wt.source = .ok canonical) : canonical = Location.path wt.origin := by
  obtain ⟨data, t, mode, hfile, -⟩ := h.source
  obtain ⟨l, n, hfollow, rfl⟩ := canonical_eq_ok hcanonical
  cases hfollow.symm.trans (h.follow hfile)
  rfl

/-- The time that can be asked for is the source's. -/
theorem modified (h : wt.Fine s) {status : Status}
    (hstatus : s.status (Location.path wt.origin) = .ok status) {data : Bytes} {t : Moment}
    {mode : Nat} (hfile : s.disk.get? wt.origin = some (.file data t mode)) :
    status.modified = t := by
  unfold FileSystem.status at hstatus
  obtain ⟨spot, hfollow, hspot⟩ := bind_eq_ok hstatus
  cases follow_path h.sound hfile (by simp) hfollow
  cases hspot
  rfl

/-- One entry of a directory changes that is no directory itself. This is a step if it leaves the
ground as it is, or grown, if what comes to stand there may, and if a new artifact stays what it
is. -/
theorem entry (h : wt.Fine s) {dir : Location} {x : Name} (hsound : s'.Sound)
    (hground : ∃ g, wt.Ground g s')
    (hreaches : ∀ full l, wt.Full full → s.Reaches full l → s'.Reaches full l)
    (hold : ∀ t, s.disk.get? (x :: dir) ≠ some (.directory t)) (horigin : x :: dir ≠ wt.origin)
    (hsame : ∀ l, l ≠ x :: dir → Disk.SameAt s.disk s'.disk l) (hsetting : SameSetting s s')
    (hnew : ∀ n, s'.disk.get? (x :: dir) = some n → wt.Fits s x dir n)
    (hkept : ∀ data t mode, x = wt.name.entryName → wt.New dir →
      s.disk.get? (x :: dir) = some (.file data t mode) →
      ∃ data' t' mode', s'.disk.get? (x :: dir) = some (.file data' t' mode')) :
    wt.Moves s s' := by
  obtain ⟨data, t, mode, hfile, hle⟩ := h.source
  have hfile' := (hsame _ horigin.symm).eq_some hfile rfl
  have hseen : wt.Seen s s' := by
    refine ⟨fun l t' ht' => (hsame l ?_).directory ht', hreaches, hsetting.now.ge,
      fun data' t' mode' hfile'' => ?_, fun l data t mode hnew hthere => ?_, fun k l n hn => ?_⟩
    · rintro rfl
      exact hold t' ht'
    · cases hfile.symm.trans hfile''
      exact ⟨data, t, mode, hfile', le_refl t, fun _ => ⟨rfl, rfl⟩⟩
    · by_cases hl : wt.artifact l = x :: dir
      · cases hl
        exact hkept data t mode rfl hnew hthere
      · exact ⟨data, t, mode, (hsame _ hl).eq_some hthere rfl⟩
    · by_cases hl : temporaryName k :: l = x :: dir
      · cases hl
        exact .inr ((hnew n hn).temporary k rfl)
      · obtain ⟨n', hn', rfl | ⟨hdir', -⟩⟩ := (hsame _ hl).symm.some hn
        · exact .inl hn'
        · exact .inr (.inl hdir')
  refine ⟨⟨hsound, hsetting.resources.trans h.resources, hground, fun data' t' mode' hfile'' => ?_,
    fun l n hnewl hn => ?_⟩, hseen⟩
  · cases hfile'.symm.trans hfile''
    exact hle.trans hsetting.now.ge
  · by_cases hl : wt.artifact l = x :: dir
    · cases hl
      exact ((hnew n hn).live rfl hnewl).seen hseen
    · obtain ⟨n', hn', hlike⟩ := (hsame _ hl).symm.some hn
      exact ((h.live l n' hnewl hn').like hlike.symm).seen hseen

/-- So it is with an entry of the directory of the calls, under a loose name. -/
theorem change (h : wt.Fine s) {full : Path} {dir : Location} {x : Name} (hfull : wt.Full full)
    (hreach : s.Reaches full dir) (hloose : wt.Loose x dir) (hplain : Name.IsPlain x)
    (hold : ∀ t, s.disk.get? (x :: dir) ≠ some (.directory t)) (horigin : x :: dir ≠ wt.origin)
    (hsame : ∀ l, l ≠ x :: dir → Disk.SameAt s.disk s'.disk l) (hsetting : SameSetting s s')
    (hleaf : ∀ n, s'.disk.get? (x :: dir) = some n → n.leadsOn = false)
    (hnew : ∀ n, s'.disk.get? (x :: dir) = some n → wt.Fits s x dir n)
    (hkept : ∀ data t mode, x = wt.name.entryName → wt.New dir →
      s.disk.get? (x :: dir) = some (.file data t mode) →
      ∃ data' t' mode', s'.disk.get? (x :: dir) = some (.file data' t' mode')) :
    wt.Moves s s' := by
  obtain ⟨g, hground⟩ := h.ground
  have hground' : wt.Ground g s' := hground.change hfull hreach hloose horigin hold hleaf
    hsetting.workingDir hsame
  have hsound := h.sound.of_sameAt (hreach.directory h.sound) hplain hold hsame hsetting.workingDir
  exact h.entry hsound ⟨g, hground'⟩ (fun full' l hfull' hreach' =>
    (hground'.reaches_iff hfull').mpr ((hground.reaches_iff hfull').mp hreach')) hold horigin hsame
    hsetting hnew hkept

/-- Where the artifact is new, no link stands for it. -/
theorem ne_link (h : wt.Fine s) {l : Location} (hnew : wt.New l) (target : Path) (t : Moment) :
    s.disk.get? (wt.artifact l) ≠ some (.link target t) := by
  intro hlink
  obtain hdir | ⟨since, -, hmade⟩ := h.live l _ hnew hlink
  · cases hdir
  · obtain ⟨data, t', mode, he, -⟩ := hmade.file rfl
    cases he

theorem ne_origin_of_none (h : wt.Fine s) {l : Location} (hnone : s.disk.get? l = none) :
    l ≠ wt.origin := by
  rintro rfl
  obtain ⟨data, t, mode, hfile, -⟩ := h.source
  cases hnone.symm.trans hfile

end Fine

/-! ## What callers change -/

/-- What a caller knows of a temporary file that it made at some time. -/
structure Own (wt : Watch) (dir : Path) (k : Nat) (l : Location) (since : Moment)
    (s : FileSystem) : Prop where
  full : wt.Full dir
  reaches : s.Reaches dir l
  loose : wt.Loose (temporaryName k) l
  origin : temporaryName k :: l ≠ wt.origin
  node : ∀ n, s.disk.get? (temporaryName k :: l) = some n → n.MadeSince since
  clock : since ≤ s.now

theorem Own.seen {dir : Path} {k : Nat} {l : Location} {since : Moment}
    (h : wt.Own dir k l since s) (hseen : wt.Seen s s') : wt.Own dir k l since s' where
  full := h.full
  reaches := hseen.reaches dir l h.full h.reaches
  loose := h.loose
  origin := h.origin
  node := fun n hn => by
    rcases hseen.temporary k l n hn with hsame | hmade
    · exact h.node n hsame
    · exact hmade.mono h.clock
  clock := h.clock.trans hseen.clock

namespace Fine

/-- A directory is made on the way. -/
theorem makeDirectory (h : wt.Fine s) {p : Path} (hp : p ∈ wt.rungs)
    (hmade : s.makeDirectory p = .ok s') : wt.Moves s s' := by
  obtain ⟨dir, x, hvacant, rfl⟩ := vacant_of_makeDirectory hmade
  obtain ⟨hsound, -, hdir, hnone⟩ := hvacant.made h.sound
  obtain ⟨g, hground⟩ := h.ground
  have hsame : ∀ l, l ≠ x :: dir →
      Disk.SameAt s.disk (s.put dir x (.directory s.now)).disk l := fun l hl => sameAt_put hdir hl
  have hways : Disk.KeepsWays s.disk (s.put dir x (.directory s.now)).disk := by
    refine Disk.keepsWays_of_sameAt fun l n hn _ => hsame l ?_
    rintro rfl
    cases hnone.symm.trans hn
  refine h.entry hsound (hground.makeDirectory h.sound hp hvacant)
    (fun full l _ hreach => hreach.mono hways rfl) (fun t ht => ?_) (h.ne_origin_of_none hnone)
    hsame ⟨rfl, rfl, rfl⟩ (fun n hn => ?_) fun data t mode _ _ hfile => ?_
  · cases hnone.symm.trans ht
  · cases get?_put_self.symm.trans hn
    exact ⟨fun _ _ => .inl rfl, fun _ _ => .inl rfl⟩
  · cases hnone.symm.trans hfile

theorem temporary (h : wt.Fine s) {dir p : Path} (hfull : wt.Full dir) {data : Bytes}
    (hmade : s.temporary dir data = .ok (p, s')) :
    ∃ k l, p = dir.join ⟨temporaryName k⟩ ∧ wt.Moves s s' ∧ wt.Own dir k l s.now s' := by
  obtain ⟨k, l, rfl, hprepared⟩ := Store.Prepared.of_temporary h.sound hmade
  obtain ⟨g, hground⟩ := h.ground
  have hloose := hground.loose_of_none hprepared.free
  have horigin := h.ne_origin_of_none hprepared.free
  have hmadeNow : ∀ n, s'.disk.get? (temporaryName k :: l) = some n →
      n = .file data s.now fileMode := fun n hn => Option.some.inj (hn.symm.trans hprepared.file)
  refine ⟨k, l, rfl, ?_, hfull, hprepared.reaches_after, hloose, horigin, fun n hn => ?_,
    hprepared.setting.now.ge⟩
  · refine h.change hfull hprepared.reaches hloose (isPlain_temporaryName k) (fun t ht => ?_)
      horigin hprepared.others hprepared.setting (fun n hn => ?_) (fun n hn => ?_)
      fun data t mode hname _ _ => absurd hname ((isProper_nameOf _).notTemporary k)
    · cases hprepared.free.symm.trans ht
    · cases hmadeNow n hn
      rfl
    · cases hmadeNow n hn
      exact ⟨fun _ _ => .inr ⟨data, _, _, rfl, le_refl _⟩,
        fun hname => absurd hname ((isProper_nameOf _).notTemporary k)⟩
  · cases hmadeNow n hn
    exact .inr ⟨data, _, _, rfl, le_refl _⟩

/-- A temporary file is taken away. -/
theorem dropTemporary (h : wt.Fine s) {dir : Path} {k : Nat} {l : Location} {since : Moment}
    (hown : wt.Own dir k l since s) {n : Node} (hn : s.disk.get? (temporaryName k :: l) = some n)
    (hnot : n.isDirectory = false) : wt.Moves s (s.drop l (temporaryName k)) := by
  have hdir := hown.reaches.directory h.sound
  have hgone : ∀ n', (s.drop l (temporaryName k)).disk.get? (temporaryName k :: l) ≠ some n' :=
    fun n' hn' => by cases get?_drop_self.symm.trans hn'
  refine h.change hown.full hown.reaches hown.loose (isPlain_temporaryName k) (fun t ht => ?_)
    hown.origin (fun l hl => sameAt_drop hdir hl) ⟨rfl, rfl, rfl⟩
    (fun n' hn' => absurd hn' (hgone n')) (fun n' hn' => absurd hn' (hgone n'))
    fun data t mode hname _ _ => absurd hname ((isProper_nameOf _).notTemporary k)
  cases hn.symm.trans ht
  cases hnot

theorem removeTemporary (h : wt.Fine s) {dir : Path} {k : Nat} {l : Location} {since : Moment}
    (hown : wt.Own dir k l since s) (hremoved : s.remove (dir.join ⟨temporaryName k⟩) = .ok s') :
    wt.Moves s s' := by
  obtain ⟨l', n, hreach, hn, hnot, rfl⟩ :=
    remove_join_eq_ok (isPlain_temporaryName k) hremoved
  cases hreach.unique hown.reaches
  exact h.dropTemporary hown hn hnot

/-- A temporary file takes the name of an artifact. If that is the artifact of the latest contents,
the source must have held them when the file was made. -/
theorem rename (h : wt.Fine s) {store : Store} {contents : Bytes} {k : Nat} {l : Location}
    {since : Moment} (hown : wt.Own store.dir k l since s)
    (hlatest : wt.nameOf contents = wt.name → ∃ t, wt.Latest s t ∧ t ≤ since)
    (hrenamed : s.rename (store.dir.join ⟨temporaryName k⟩)
      (store.artifactPath (wt.nameOf contents)) = .ok s') :
    wt.Moves s s' ∧ s'.Reaches store.dir l ∧ store.CanAsk (wt.nameOf contents) ∧
      ∃ data t mode,
        s'.disk.get? ((wt.nameOf contents).entryName :: l) = some (.file data t mode) := by
  have hproper := wt.isProper_nameOf contents
  have hsibling := wt.isSibling_fileName contents
  have hask := Store.canAsk_of_rename hproper hrenamed
  obtain ⟨l', n, hreach, hn, hnot, hreplaced, rfl⟩ :=
    rename_join_eq_ok (isPlain_temporaryName k) hproper.plain hrenamed
  cases hreach.unique hown.reaches
  have hdropped := h.dropTemporary hown hn hnot
  obtain ⟨data, t, mode, rfl, ht⟩ := (hown.node n hn).file hnot
  have hne : (wt.nameOf contents).entryName :: l ≠ temporaryName k :: l :=
    fun he => hproper.notTemporary k (List.cons.inj he).1.symm
  have hsame : Disk.SameAt s.disk (s.drop l (temporaryName k)).disk
      ((wt.nameOf contents).entryName :: l) := sameAt_drop (hown.reaches.directory h.sound) hne
  have hreach' := hdropped.seen.reaches _ _ hown.full hown.reaches
  have hdir := hreach'.directory hdropped.fine.sound
  have hput : wt.Moves (s.drop l (temporaryName k)) ((s.drop l (temporaryName k)).put l
      (wt.nameOf contents).entryName (.file data t mode)) := by
    refine hdropped.fine.change hown.full hreach' (.inl ⟨_, rfl, hsibling⟩) hproper.plain
      (fun t' ht' => ?_) (cons_ne_origin hsibling l) (fun l hl => sameAt_put hdir hl)
      ⟨rfl, rfl, rfl⟩ (fun n' hn' => ?_) (fun n' hn' => ?_)
      fun _ _ _ _ _ _ => ⟨data, t, mode, get?_put_self⟩
    · obtain ⟨t'', ht''⟩ := hsame.symm.directory ht'
      exact hreplaced t'' ht''
    · cases get?_put_self.symm.trans hn'
      rfl
    · cases get?_put_self.symm.trans hn'
      refine ⟨fun k' hk' => absurd hk'.symm (hproper.notTemporary k'), fun hname _ => ?_⟩
      have heq := ArtifactName.entryName_injective (isWorded_nameOf _) (isWorded_nameOf _) hname
      obtain ⟨t', hlatest', hle⟩ := hlatest heq
      exact .inr ⟨t', hdropped.seen.latest hlatest', .inr ⟨data, t, mode, rfl, hle.trans ht⟩⟩
  exact ⟨hdropped.trans hput, hput.seen.reaches _ _ hown.full hreach', hask, data, t, mode,
    get?_put_self⟩

/-- A sibling is removed. If the artifact that is watched were meant, what stands for it where it is
new must be a directory, which cannot be removed. -/
theorem removeSibling (h : wt.Fine s) {store : Store} (hfull : wt.Full store.dir) {contents : Bytes}
    {x : Name} (hother : Store.isOther (wt.nameOf contents) x = true)
    (hspared : x = wt.name.entryName → ∀ l, wt.New l → s.Reaches store.dir l →
      ∀ n, s.disk.get? (x :: l) = some n → n.isDirectory = true)
    (hremoved : s.remove (store.dir.join ⟨x⟩) = .ok s') : wt.Moves s s' := by
  obtain ⟨text, rfl, hspelt, hsibling⟩ :=
    ArtifactName.spelt_of_isOther (isWorded_nameOf contents) hother
  rw [isSibling_nameOf] at hsibling
  obtain ⟨l, n, hreach, hn, hnot, rfl⟩ := remove_join_eq_ok hspelt.isPlain hremoved
  have hdir := hreach.directory h.sound
  have hgone : ∀ n', (s.drop l (Utf8.encode text)).disk.get? (Utf8.encode text :: l) ≠ some n' :=
    fun n' hn' => by cases get?_drop_self.symm.trans hn'
  refine h.change hfull hreach (.inl ⟨text, rfl, hsibling⟩) hspelt.isPlain (fun t ht => ?_)
    (cons_ne_origin hsibling l) (fun l hl => sameAt_drop hdir hl) ⟨rfl, rfl, rfl⟩
    (fun n' hn' => absurd hn' (hgone n')) (fun n' hn' => absurd hn' (hgone n'))
    fun data t mode hname hnew _ => ?_
  · cases hn.symm.trans ht
    cases hnot
  · cases hnot.symm.trans (hspared hname l hnew hreach n hn)

/-- Whatever is older than the source has been is not the artifact that is watched, where that is
new. -/
theorem isDirectory_of_before (h : wt.Fine s) {time : Moment} (htime : wt.Past time s)
    {l : Location} (hnew : wt.New l) {n : Node} (hn : s.disk.get? (wt.artifact l) = some n)
    (hbefore : n.modified.before time = true) : n.isDirectory = true := by
  rcases h.live l n hnew hn with hdir | ⟨since, ⟨data, mode, hfile, -⟩, hdir | hmade⟩
  · exact hdir
  · exact hdir
  · obtain ⟨data', t, mode', rfl, ht⟩ := hmade
    exact absurd ((htime data since mode hfile).trans ht) (Moment.not_le_of_before hbefore)

/-! ## What happens from outside -/

theorem tick (h : wt.Fine s) {now : Moment} (hnow : s.now ≤ now) :
    wt.Moves s { s with now := now } := by
  obtain ⟨g, hground⟩ := h.ground
  exact ⟨⟨⟨h.sound.tree, h.sound.working⟩, h.resources,
    ⟨g, hground.of_same rfl hground.source fun l _ => .refl _ l⟩,
    fun data t mode hfile => (h.clock data t mode hfile).trans hnow, h.live⟩,
    .of_eq rfl rfl hnow⟩

/-- The source is edited while it does not hold its latest contents. -/
theorem edit (h : wt.Fine s) {data : Bytes}
    (hold : ∀ contents, s.contents wt.source = .ok contents → wt.nameOf contents ≠ wt.name)
    (hwritten : s.writeHere wt.source data s.now = .ok s') : wt.Moves s s' := by
  obtain ⟨before, time, mode, hfile, hle⟩ := h.source
  have hfollow := h.follow hfile
  have hname : wt.nameOf before ≠ wt.name := hold before (contents_of_follow hfollow)
  unfold writeHere at hwritten
  rw [hfollow] at hwritten
  cases hwritten
  have hself : (s.disk.set wt.origin (.file data s.now mode)).get? wt.origin =
      some (.file data s.now mode) := by rw [Disk.get?_set, if_pos rfl]
  have hother : ∀ l, l ≠ wt.origin →
      (s.disk.set wt.origin (.file data s.now mode)).get? l = s.disk.get? l :=
    fun l hl => by rw [Disk.get?_set, if_neg hl]
  have hartifact : ∀ l, wt.artifact l ≠ wt.origin := cons_ne_origin (isSibling_fileName wt.latest)
  have hways : Disk.KeepsWays s.disk (s.disk.set wt.origin (.file data s.now mode)) :=
    Disk.keepsWays_set_of_file hfile _
  have hworking : ({ s with disk := s.disk.set wt.origin (.file data s.now mode) } :
      FileSystem).workingDir = s.workingDir := rfl
  obtain ⟨g, hground⟩ := h.ground
  have hground' : wt.Ground g { s with disk := s.disk.set wt.origin (.file data s.now mode) } :=
    hground.of_same rfl ⟨_, _, _, hself⟩ fun l hl => .of_eq (hother l hl)
  refine ⟨⟨h.sound.set_of_file hfile _, h.resources, ⟨g, hground'⟩,
      fun data' t' mode' hfile' => ?_, fun l n hnew hn => ?_⟩,
    ⟨fun l t ht => hways.directory ht, fun _ _ _ hreach => hreach.mono hways hworking, le_refl _,
      fun data' t' mode' hfile' => ?_, fun l data' t' mode' _ hthere => ⟨data', t', mode', ?_⟩,
      fun k l n hn => ?_⟩⟩
  · cases hself.symm.trans hfile'
    exact le_refl _
  · -- before the edit the source did not hold its latest contents, so no file was there
    rw [hother _ (hartifact l)] at hn
    rcases h.live l n hnew hn with hdir | ⟨since, ⟨data', mode', hfile', hlatest⟩, -⟩
    · exact .inl hdir
    · cases hfile.symm.trans hfile'
      exact absurd hlatest hname
  · cases hfile.symm.trans hfile'
    exact ⟨data, s.now, mode, hself, hle, fun hlatest => absurd hlatest hname⟩
  · rw [hother _ (hartifact l)]
    exact hthere
  · by_cases hl : temporaryName k :: l = wt.origin
    · rw [hl, hself] at hn
      cases hn
      exact .inr (.inr ⟨data, _, mode, rfl, le_refl _⟩)
    · rw [hother _ hl] at hn
      exact .inl hn

end Fine

/-- All of it is true at first. -/
theorem holds_start {ι : Type} (hclock : wt.time ≤ wt.start.now) :
    wt.Holds (⟨wt.start, wt.held, fun _ => []⟩ : Shared ι) := by
  refine ⟨⟨wt.sound, rfl, ⟨wt.start, ground_start⟩, fun data t mode hfile => ?_,
    fun l n hnew hn => ?_⟩, .inl rfl⟩
  · cases ground_start.origin.symm.trans hfile
    exact hclock
  · cases hnew.symm.trans hn

end Watch

end TemplateCache
