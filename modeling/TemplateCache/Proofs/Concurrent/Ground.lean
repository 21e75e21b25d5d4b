import TemplateCache.FileSystem.Edit
import TemplateCache.Proofs.Artifact.Siblings
import TemplateCache.Proofs.Compiler.Course
import TemplateCache.Proofs.FileSystem.Passing
import TemplateCache.Proofs.Store.Stages

/-!
# The ground under the files

Callers put artifacts and temporary files into their directory and take them away again, links with
the name of an artifact included. Such a link must not lie on the way to the directory or to the
source (`Compiler.SparesWays`), or else a caller that removes it cuts a way of its own.

The *ground* is what the files would be had nothing been done but to make directories on the way. It
only grows, and nothing but loose entries of the directory and the contents of the source lie
between it and the files: `Watch.Ground`. No way depends on these, so the directory is reached where
it is on the ground (`Ground.reaches_iff`), and the source is where it was (`Ground.follow`).
-/

namespace TemplateCache

open FileSystem

/-- No link with the name of an artifact is in the way of a call. One that stands in the directory
which the call goes to, as soon as that is reached, lies neither on the way there nor on the way to
the source. -/
def Compiler.SparesWays (c : Compiler) (source : Path) (o : Options) (m : Machine)
    (n : ArtifactName) : Prop :=
  ∀ dest full, c.destinationFrom o m = .ok dest →
    (m.system.runFiles (Store.absolute dest)).1 = .ok full →
    ∀ g dir text, Grows (FileProgram.ancestors full) m.system g → g.Reaches full dir →
      n.isSibling text = true →
      ¬g.Crosses full (Utf8.encode text :: dir) ∧ ¬g.Crosses source (Utf8.encode text :: dir)

/-- So it is if there is no such link at all. -/
theorem Compiler.sparesWays_of_noLinks {c : Compiler} {source : Path} {o : Options} {m : Machine}
    {n : ArtifactName} (h : ∀ text l target t, n.isSibling text = true →
      m.system.disk.get? (Utf8.encode text :: l) ≠ some (.link target t)) :
    c.SparesWays source o m n := by
  intro dest full _ _ g dir text hgrows _ hsibling
  have hnone : ∀ p, ¬g.Crosses p (Utf8.encode text :: dir) := fun p hcrosses => by
    obtain ⟨target, t, hlink⟩ := hcrosses.link
    exact h text dir target t hsibling (hgrows.eq_some_back hlink rfl)
  exact ⟨hnone full, hnone source⟩

/-! ## What is watched -/

/-- A source, the files when the first call for it begins, and the contents that it comes to
hold. -/
structure Watch where
  compiler : Compiler
  source : Path
  options : Options
  start : FileSystem
  held : Option Path
  sound : start.Sound
  /-- The source at first, and where it is. -/
  origin : Location
  data : Bytes
  time : Moment
  mode : Nat
  follow : start.follow source = .ok (.node origin (.file data time mode))
  latest : Bytes
  spares : compiler.SparesWays source options ⟨start, held, []⟩
    (compiler.artifactName options (Location.path origin) latest)

namespace Watch

variable (wt : Watch)

/-- The name of the artifact of some contents. -/
def nameOf (contents : Bytes) : ArtifactName :=
  wt.compiler.artifactName wt.options (Location.path wt.origin) contents

/-- The name of the artifact that is watched. -/
def name : ArtifactName := wt.nameOf wt.latest

/-- A directory where the calls go, as an absolute path. -/
def Full (full : Path) : Prop :=
  ∃ dest, wt.compiler.destinationFrom wt.options ⟨wt.start, wt.held, []⟩ = .ok dest ∧
    (wt.start.runFiles (Store.absolute dest)).1 = .ok full

/-- What they make on the way there. -/
def rungs : List Path :=
  match wt.compiler.destinationFrom wt.options ⟨wt.start, wt.held, []⟩ with
  | .error _ => []
  | .ok dest =>
      match (wt.start.runFiles (Store.absolute dest)).1 with
      | .error _ => []
      | .ok full => FileProgram.ancestors full

variable {wt} {g s s' : FileSystem} {p full : Path} {l dir : Location} {x : Name}

theorem Full.rungs_eq (h : wt.Full full) : wt.rungs = FileProgram.ancestors full := by
  obtain ⟨dest, hdest, habsolute⟩ := h
  unfold rungs
  rw [hdest]
  dsimp only
  rw [habsolute]

/-- Where one of the directories on the way is vacant, nobody has come to the directory yet. -/
theorem Full.not_reaches_of_vacant (h : wt.Full full) (hs : s.Sound) (hp : p ∈ wt.rungs)
    (hvacant : s.Vacant p dir x) (l : Location) : ¬s.Reaches full l := by
  rw [h.rungs_eq] at hp
  obtain ⟨dest, -, habsolute⟩ := h
  obtain ⟨habs, hhere⟩ := Store.absolute_eq_ok wt.sound habsolute
  have hladder := FileProgram.ancestors_ladder habs hhere
  rw [FileProgram.ancestors_eq habs] at hladder hp
  intro hreach
  have hthere : s.DirectoryAt p :=
    (directoryAt_iff hs).mpr ⟨(vacant_iff.mp hvacant).1, hreach.of_ladder hladder hp⟩
  exact hthere.not_vacant hs hvacant

/-! ## The ground -/

/-- A name under which callers put something, or from which they take it away: that of a sibling, or
one that was free at first. -/
def Loose (wt : Watch) (x : Name) (dir : Location) : Prop :=
  (∃ text, x = Utf8.encode text ∧ wt.name.isSibling text = true) ∨
    wt.start.disk.get? (x :: dir) = none

/-- An entry of the directory with such a name, which no way leads on from. -/
structure Apart (wt : Watch) (g s : FileSystem) (l : Location) : Prop where
  entry : ∃ x dir full, l = x :: dir ∧ wt.Loose x dir ∧ wt.Full full ∧ g.Reaches full dir
  before : ∀ t, g.disk.get? l ≠ some (.directory t)
  after : ∀ n, s.disk.get? l = some n → n.leadsOn = false

/-- What the files at some time are built on. -/
structure Ground (wt : Watch) (g s : FileSystem) : Prop where
  grows : Grows wt.rungs wt.start g
  workingDir : s.workingDir = wt.start.workingDir
  source : ∃ data t mode, s.disk.get? wt.origin = some (.file data t mode)
  places : ∀ l, Disk.SameAt g.disk s.disk l ∨ l = wt.origin ∨ wt.Apart g s l

theorem ground_start : wt.Ground wt.start wt.start where
  grows := .refl wt.sound
  workingDir := rfl
  source := ⟨_, _, _, (follow_eq_ok_iff.mp wt.follow).2.get?⟩
  places := fun l => .inl (.refl _ l)

/-- No way comes to such an entry. -/
theorem Apart.not_crosses (h : wt.Apart g s l) (hgrows : Grows wt.rungs wt.start g)
    (hp : p = wt.source ∨ wt.Full p) : ¬g.Crosses p l := by
  obtain ⟨x, dir, full, rfl, hloose, hfull, hreach⟩ := h.entry
  intro hcrosses
  obtain ⟨text, rfl, hsibling⟩ | hnone := hloose
  · rw [hfull.rungs_eq] at hgrows
    obtain ⟨dest, hdest, habsolute⟩ := hfull
    have hspared := wt.spares dest full hdest habsolute g dir text hgrows hreach hsibling
    obtain rfl | ⟨dest', hdest', habsolute'⟩ := hp
    · exact hspared.2 hcrosses
    · cases hdest.symm.trans hdest'
      cases habsolute.symm.trans habsolute'
      exact hspared.1 hcrosses
  · obtain ⟨target, t, hlink⟩ := hcrosses.link
    cases hnone.symm.trans (hgrows.eq_some_back hlink rfl)

namespace Ground

theorem workingDir_eq (h : wt.Ground g s) : s.workingDir = g.workingDir :=
  h.workingDir.trans h.grows.setting.workingDir.symm

/-- The source stands there as it was at first. -/
theorem origin (h : wt.Ground g s) :
    g.disk.get? wt.origin = some (.file wt.data wt.time wt.mode) :=
  h.grows.eq_some (follow_eq_ok_iff.mp wt.follow).2.get? rfl

/-- What is different by now is nothing that a way leads over. -/
theorem uncrossed (h : wt.Ground g s) (hp : p = wt.source ∨ wt.Full p) (l : Location) :
    Disk.SameAt g.disk s.disk l ∨
      (∀ t, g.disk.get? l ≠ some (.directory t)) ∧ ¬g.Crosses p l := by
  obtain hsame | rfl | hapart := h.places l
  · exact .inl hsame
  · refine .inr ⟨fun t ht => ?_, fun hcrosses => ?_⟩
    · cases h.origin.symm.trans ht
    · obtain ⟨target, t, hlink⟩ := hcrosses.link
      cases h.origin.symm.trans hlink
  · exact .inr ⟨hapart.before, hapart.not_crosses h.grows hp⟩

theorem uncrossed_back (h : wt.Ground g s) (p : Path) (l : Location) :
    Disk.SameAt s.disk g.disk l ∨
      (∀ t, s.disk.get? l ≠ some (.directory t)) ∧ ¬s.Crosses p l := by
  have hleaf : (∀ n, s.disk.get? l = some n → n.leadsOn = false) →
      (∀ t, s.disk.get? l ≠ some (.directory t)) ∧ ¬s.Crosses p l := by
    refine fun hleaf => ⟨fun t ht => ?_, fun hcrosses => ?_⟩
    · cases hleaf _ ht
    · obtain ⟨target, t, hlink⟩ := hcrosses.link
      cases hleaf _ hlink
  obtain hsame | rfl | hapart := h.places l
  · exact .inl hsame.symm
  · obtain ⟨data, t, mode, hfile⟩ := h.source
    refine .inr (hleaf fun n hn => ?_)
    cases hfile.symm.trans hn
    rfl
  · exact .inr (hleaf hapart.after)

/-- The directory is reached where it is on the ground. -/
theorem reaches_iff (h : wt.Ground g s) (hfull : wt.Full full) :
    s.Reaches full l ↔ g.Reaches full l :=
  ⟨fun hreach => hreach.of_uncrossed h.workingDir_eq.symm (h.uncrossed_back full),
    fun hreach => hreach.of_uncrossed h.workingDir_eq (h.uncrossed (.inr hfull))⟩

/-- The source is always where it was. -/
theorem follow (h : wt.Ground g s) {data : Bytes} {t : Moment} {mode : Nat}
    (hfile : s.disk.get? wt.origin = some (.file data t mode)) :
    s.follow wt.source = .ok (.node wt.origin (.file data t mode)) := by
  have hfollow : g.follow wt.source = .ok (.node wt.origin (.file wt.data wt.time wt.mode)) := by
    obtain ⟨hcheck, hends⟩ := follow_eq_ok_iff.mp wt.follow
    refine follow_eq_ok_iff.mpr ⟨hcheck, ?_⟩
    rw [h.grows.setting.workingDir]
    exact hends.mono h.grows.keepsWays h.origin (.refl _)
  exact follow_of_uncrossed hfollow h.workingDir_eq hfile rfl (h.uncrossed (.inl rfl))

/-- A name is loose where nothing stands under it. -/
theorem loose_of_none (h : wt.Ground g s) (hnone : s.disk.get? (x :: dir) = none) :
    wt.Loose x dir := by
  obtain hsame | horigin | hapart := h.places (x :: dir)
  · right
    cases hstart : wt.start.disk.get? (x :: dir) with
    | none => rfl
    | some n =>
        obtain ⟨n', hn', -⟩ := h.grows.kept _ n hstart
        cases hn'.symm.trans (hsame.none_iff.mpr hnone)
  · obtain ⟨data, t, mode, hfile⟩ := h.source
    cases (horigin ▸ hnone).symm.trans hfile
  · obtain ⟨x', dir', full, he, hloose, -⟩ := hapart.entry
    cases he
    exact hloose

/-- Where nothing is different but what the source holds, the ground is the same. -/
theorem of_same (h : wt.Ground g s) (hworking : s'.workingDir = s.workingDir)
    (hsource : ∃ data t mode, s'.disk.get? wt.origin = some (.file data t mode))
    (hsame : ∀ l, l ≠ wt.origin → Disk.SameAt s.disk s'.disk l) : wt.Ground g s' := by
  refine ⟨h.grows, hworking.trans h.workingDir, hsource, fun l => ?_⟩
  by_cases hl : l = wt.origin
  · exact .inr (.inl hl)
  obtain hbefore | horigin | hapart := h.places l
  · exact .inl (hbefore.trans (hsame l hl))
  · exact absurd horigin hl
  · refine .inr (.inr ⟨hapart.entry, hapart.before, fun n hn => ?_⟩)
    obtain ⟨n', hn', hlike⟩ := (hsame l hl).symm.some hn
    rw [Disk.leadsOn_of_like hlike]
    exact hapart.after n' hn'

/-- So it is where an entry of the directory is different that is loose. -/
theorem change (h : wt.Ground g s) (hfull : wt.Full full) (hreach : s.Reaches full dir)
    (hloose : wt.Loose x dir) (horigin : x :: dir ≠ wt.origin)
    (hold : ∀ t, s.disk.get? (x :: dir) ≠ some (.directory t))
    (hnew : ∀ n, s'.disk.get? (x :: dir) = some n → n.leadsOn = false)
    (hworking : s'.workingDir = s.workingDir)
    (hsame : ∀ l, l ≠ x :: dir → Disk.SameAt s.disk s'.disk l) : wt.Ground g s' := by
  obtain ⟨data, t, mode, hfile⟩ := h.source
  refine ⟨h.grows, hworking.trans h.workingDir,
    ⟨data, t, mode, (hsame _ horigin.symm).eq_some hfile rfl⟩, fun l => ?_⟩
  by_cases hl : l = x :: dir
  · subst hl
    refine .inr (.inr ⟨⟨x, dir, full, rfl, hloose, hfull, (h.reaches_iff hfull).mp hreach⟩,
      fun t' ht' => ?_, hnew⟩)
    obtain hbefore | horigin' | hapart := h.places (x :: dir)
    · obtain ⟨t'', ht''⟩ := hbefore.directory ht'
      exact hold t'' ht''
    · exact horigin horigin'
    · exact hapart.before t' ht'
  obtain hbefore | horigin' | hapart := h.places l
  · exact .inl (hbefore.trans (hsame l hl))
  · exact .inr (.inl horigin')
  · refine .inr (.inr ⟨hapart.entry, hapart.before, fun n hn => ?_⟩)
    obtain ⟨n', hn', hlike⟩ := (hsame l hl).symm.some hn
    rw [Disk.leadsOn_of_like hlike]
    exact hapart.after n' hn'

/-- A directory that is made on the way belongs to the ground from then on. Nothing can lie between
them yet, for nobody has come to the directory. -/
theorem makeDirectory (h : wt.Ground g s) (hs : s.Sound) (hp : p ∈ wt.rungs)
    (hvacant : s.Vacant p dir x) :
    ∃ g', wt.Ground g' (s.put dir x (.directory s.now)) := by
  obtain ⟨data, t, mode, hfile⟩ := h.source
  obtain ⟨-, -, hdir, hnone⟩ := hvacant.made hs
  have horigin : wt.origin ≠ x :: dir := by
    intro he
    cases hnone.symm.trans (he ▸ hfile)
  have hplaces : ∀ l, l ≠ wt.origin → Disk.SameAt g.disk s.disk l := by
    intro l hl
    obtain hsame | horigin' | hapart := h.places l
    · exact hsame
    · exact absurd horigin' hl
    · obtain ⟨-, dir', full, -, -, hfull, hreach⟩ := hapart.entry
      exact absurd ((h.reaches_iff hfull).mpr hreach)
        (hfull.not_reaches_of_vacant hs hp hvacant dir')
  have hways : Disk.KeepsWays s.disk g.disk := by
    refine Disk.keepsWays_of_sameAt fun l n hn hleads => (hplaces l ?_).symm
    rintro rfl
    cases hfile.symm.trans hn
    cases hleads
  have hvacantGround : g.Vacant p dir x := hvacant.mono hways h.workingDir_eq.symm
    ((hplaces _ horigin.symm).none_iff.mpr hnone)
  obtain ⟨-, -, hdirGround, -⟩ := hvacantGround.made h.grows.sound
  have hgrows := makeDirectory_grows h.grows.sound hvacantGround.makeDirectory
  refine ⟨g.put dir x (.directory g.now), h.grows.trans (hgrows.mono ?_), h.workingDir,
    ⟨data, t, mode, ?_⟩, fun l => ?_⟩
  · exact List.cons_subset.mpr ⟨hp, List.nil_subset _⟩
  · exact (sameAt_put hdir horigin).eq_some hfile rfl
  · by_cases hl : l = x :: dir
    · subst hl
      unfold Disk.SameAt
      rw [get?_put_self, get?_put_self]
      exact .inl (.some (.inr ⟨rfl, rfl⟩))
    by_cases hl' : l = wt.origin
    · exact .inr (.inl hl')
    · exact .inl ((sameAt_put hdirGround hl).symm.trans
        ((hplaces l hl').trans (sameAt_put hdir hl)))

end Ground

end Watch

end TemplateCache
