import TemplateCache.Proofs.Run.Basic

/-!
# Artifacts stay

Calls remove files, in a directory that all sources, transforms and options may share. An artifact
that was answered is safe from them as long as its source keeps its contents: whoever could remove
or replace it would have to be a call for the same source with the same transform and options, for
these are in the keys of its name, and such a call finds it there.

Times play no part in this, so it does not matter what becomes of the source's.

Main statement: `artifact_survives`.
-/

namespace TemplateCache

open FileSystem

/-! ## Contents at a canonical path -/

/-- What is read through any path is what is read at the canonical one. -/
theorem contents_of_canonical {s : FileSystem} (hs : s.Sound) {p canonical : Path}
    {contents contents' : Bytes} (hcontents : s.contents p = .ok contents)
    (hcanonical : s.canonical p = .ok canonical)
    (hcontents' : s.contents canonical = .ok contents') : contents = contents' := by
  obtain ⟨l, node, hfollow, rfl⟩ := canonical_eq_ok hcanonical
  unfold FileSystem.contents at hcontents hcontents'
  rw [hfollow] at hcontents
  obtain ⟨spot, hspot, hcontents'⟩ := bind_eq_ok hcontents'
  have hlink : ∀ target t, node ≠ .link target t := by
    rintro target t rfl
    cases hcontents
  -- both paths are followed to the same node
  cases follow_path hs (follow_eq_ok_iff.mp hfollow).2.get? hlink hspot
  exact Except.ok.inj (hcontents.symm.trans hcontents')

/-! ## What is assumed of keys -/

/-- Different canonical paths have different path keys. -/
def DistinctPathKeys (records : List Record) : Prop :=
  ∀ r ∈ records, ∀ r' ∈ records, ∀ p p',
    r.before.system.canonical r.call.source = .ok p →
    r'.before.system.canonical r'.call.source = .ok p' →
    ArtifactName.pathKey p = ArtifactName.pathKey p' → p = p'

namespace Record

/-- The bytes that stand for a call's transform and options. -/
def variant (r : Record) : Bytes × Bytes :=
  (Utf8.ofString r.call.compiler.transform.fingerprint, Utf8.encode r.call.options.transformKey)

/-- The digits that stand for them in the name. -/
def variantKey (r : Record) : List Char :=
  (ArtifactName.variantHash r.variant.1 r.variant.2).short ArtifactName.variantKeyLength

end Record

/-- Different transforms or options have different variant keys. -/
def DistinctVariantKeys (records : List Record) : Prop :=
  ∀ r ∈ records, ∀ r' ∈ records, r.variantKey = r'.variantKey → r.variant = r'.variant

theorem DistinctPathKeys.mono {records more : List Record} (h : DistinctPathKeys more)
    (hsub : records ⊆ more) : DistinctPathKeys records :=
  fun r hr r' hr' => h r (hsub hr) r' (hsub hr')

theorem DistinctVariantKeys.mono {records more : List Record} (h : DistinctVariantKeys more)
    (hsub : records ⊆ more) : DistinctVariantKeys records :=
  fun r hr r' hr' => h r (hsub hr) r' (hsub hr')

/-! ## Who could touch an artifact -/

/-- Artifacts with one identity are those of one source, transform and options. -/
theorem nameOf_eq_of_identity {records : List Record} (hpaths : DistinctPathKeys records)
    (hvariants : DistinctVariantKeys records) {r r' : Record} (hr : r ∈ records)
    (hr' : r' ∈ records) {p p' : Path} {contents contents' : Bytes}
    (hp : r.before.system.canonical r.call.source = .ok p)
    (hp' : r'.before.system.canonical r'.call.source = .ok p')
    (hidentity : (r.nameOf p contents).identity = (r'.nameOf p' contents').identity) :
    p = p' ∧ r.nameOf p contents = r'.nameOf p' contents := by
  obtain ⟨hpathKey, hvariantKey⟩ := ArtifactName.keys_of_identity hidentity
  have hpath := hpaths r hr r' hr' p p' hp hp' hpathKey
  have hvariant := hvariants r hr r' hr' hvariantKey
  simp only [Record.variant, Prod.mk.injEq] at hvariant
  refine ⟨hpath, ?_⟩
  unfold Record.nameOf Compiler.artifactName
  rw [hpath, hvariant.1, hvariant.2]

/-- A call does not touch a location: it neither writes nor removes what is there. -/
def Record.LeavesAlone (r : Record) (l : Location) : Prop :=
  (∀ out, ¬r.call.compiler.MayWrite r.call.source r.call.options r.before l out) ∧
    ∀ node, ¬r.call.compiler.MayRemove r.call.source r.call.options r.before l node

/-- A file under an artifact's name is not written again, for whoever would write it finds it. -/
theorem not_mayWrite_of_file {r : Record} (hr : r.before.system.Sound) {n : ArtifactName}
    {dir : Location} {data : Bytes} {t : Moment} {mode : Nat}
    (hfile : r.before.system.disk.get? (n.entryName :: dir) = some (.file data t mode))
    (out : Bytes) :
    ¬r.call.compiler.MayWrite r.call.source r.call.options r.before (n.entryName :: dir) out := by
  rintro ⟨contents, canonical, store, opened, dir', hworks, hl, -, hask, hnofile⟩
  obtain ⟨_, hgrows⟩ := hworks.arrival.grows hr
  have hplain := (r.call.compiler.isProper_artifactName r.call.options canonical contents).plain
  rw [hl] at hfile
  injection hl with _ hdir
  -- opening the store makes directories only, so the file is in the open store
  have hentry := Store.entry_of_reaches hplain hask hworks.reaches (hgrows.eq_some hfile rfl)
  have hstatus := status_of_follow (follow_of_entry hplain hentry)
  have hno := hnofile opened (by simp) _ hstatus
  cases hno

/-- Nor is it removed: a call that could take it for an old artifact of its own source would read
the same contents and give the same name. -/
theorem not_mayRemove_of_contents {records : List Record} (hpaths : DistinctPathKeys records)
    (hvariants : DistinctVariantKeys records) {r r₀ : Record} (hr : r ∈ records)
    (hr₀ : r₀ ∈ records) (hsound : r.before.system.Sound) {canonical : Path} {contents : Bytes}
    (hcanonical : r₀.before.system.canonical r₀.call.source = .ok canonical)
    (hcontents : r.before.system.contents canonical = .ok contents) {dir : Location} (node : Node) :
    ¬r.call.compiler.MayRemove r.call.source r.call.options r.before
      ((r₀.nameOf canonical contents).entryName :: dir) node := by
  rintro ⟨contents', canonical', store, opened, dir', name, status, hworks, hl, hother, -⟩
  injection hl with hname _
  rw [← hname] at hother
  unfold Store.isOther ArtifactName.entryName at hother
  rw [Utf8.decode?_encode] at hother
  simp only [Bool.and_eq_true, bne_iff_ne, ne_eq] at hother
  obtain ⟨hne, hsibling⟩ := hother
  have hidentity := ((ArtifactName.isSibling_fileName_iff (ArtifactName.isWorded_forSource ..)
    (ArtifactName.isWorded_forSource ..)).mp hsibling).1
  obtain ⟨hpath, hsame⟩ := nameOf_eq_of_identity hpaths hvariants hr hr₀
    hworks.arrival.canonical hcanonical hidentity
  -- the contents decide the one key that siblings may differ in
  have hread := contents_of_canonical hsound hworks.arrival.contents hworks.arrival.canonical
    (hpath ▸ hcontents)
  refine hne ?_
  rw [← hread, ← hsame]
  rfl

/-- An entry that a call leaves alone is still what its path names. -/
theorem entry_call {w : World} {call : Call} (hw : w.system.Sound)
    (hno : w.system.NoReservedLinks) {dir : Path} {name : Name} (hplain : Name.IsPlain name)
    {l : Location} {data : Bytes} {t : Moment} {mode : Nat}
    (hentry : w.system.entry (dir.join ⟨name⟩) = .ok (.node l (.file data t mode)))
    (halone : (w.record call).LeavesAlone l) :
    (w.afterCall call).system.entry (dir.join ⟨name⟩) = .ok (.node l (.file data t mode)) := by
  have hframed := Record.framed hw call
  obtain ⟨hcheck, hlen, d, hreach, ⟨-, hspot⟩ | ⟨node, hnode, hspot⟩⟩ :=
    (entry_join_eq_ok_iff hplain).mp hentry
  · cases hspot
  · cases hspot
    have hkept : (w.afterCall call).system.disk.get? (name :: d) = some (.file data t mode) := by
      rcases hframed.kept _ _ hnode with ⟨node', hnode', hlike⟩ |
        ⟨-, ⟨out, hwrite, -⟩ | ⟨hremove, -⟩⟩
      · cases hlike.eq_of_not_directory rfl
        exact hnode'
      · exact absurd hwrite (halone.1 out)
      · exact absurd hremove (halone.2 _)
    exact (entry_join_eq_ok_iff hplain).mpr ⟨hcheck, hlen, d,
      hreach.mono (hframed.keepsWays hno) hframed.setting.workingDir, .inr ⟨_, hkept, rfl⟩⟩

/-! ## Runs -/

/-- An edit that makes no link under an artifact's name and does not touch what a path names. -/
structure FileSystem.Spares (p : Path) (s s' : FileSystem) : Prop where
  sound : s'.Sound
  links : s'.NoReservedLinks
  entry : s'.entry p = s.entry p

/-- **An artifact that was answered survives every later call** as long as its source keeps its
contents and nobody else touches it. No call writes or removes it, whatever compiler, source,
destination and times it comes with. -/
theorem artifact_survives {w w' : World} {call : Call} {p canonical : Path} {contents : Bytes}
    {history : List Record} (hw : w.system.Sound) (hno : w.system.NoReservedLinks)
    (hp : (w.record call).result = .ok p)
    (hcontents : w.system.contents call.source = .ok contents)
    (hcanonical : w.system.canonical call.source = .ok canonical)
    (hrun : Run (Spares p) (w.afterCall call) history w')
    (hunchanged : ∀ r ∈ history, r.before.system.contents canonical = .ok contents)
    (hpaths : DistinctPathKeys (w.record call :: history))
    (hvariants : DistinctVariantKeys (w.record call :: history)) :
    ∃ l data t mode, (w.afterCall call).system.entry p = .ok (.node l (.file data t mode)) ∧
      w'.system.entry p = .ok (.node l (.file data t mode)) ∧
      ∀ r ∈ history, r.LeavesAlone l := by
  obtain ⟨contents', canonical', store, dir, data, t, mode, hstored⟩ := stored_of_ok hw hno hp
  obtain ⟨opened, harrived⟩ := hstored.arrived
  cases harrived.contents.symm.trans hcontents
  cases harrived.canonical.symm.trans hcanonical
  have hentry := hstored.entry
  refine ⟨_, data, t, mode, hentry, ?_⟩
  have hplain : Name.IsPlain ((w.record call).nameOf canonical contents).entryName :=
    (Compiler.isProper_artifactName ..).plain
  rw [hstored.path] at hentry hrun ⊢
  have hframed := Record.framed hw call
  -- what the induction carries: the answer is where it was, and no call so far touches it
  suffices hall : w'.system.Sound ∧ w'.system.NoReservedLinks ∧
      w'.system.entry (store.artifactPath ((w.record call).nameOf canonical contents)) =
        .ok (.node (((w.record call).nameOf canonical contents).entryName :: dir)
          (.file data t mode)) ∧
      ∀ r ∈ history,
        r.LeavesAlone (((w.record call).nameOf canonical contents).entryName :: dir) from
    hall.2.2
  induction hrun with
  | start =>
      exact ⟨hframed.sound, hframed.noReservedLinks hno, hentry, by simp⟩
  | @call history v next _ ih =>
      have hsub : w.record call :: history ⊆ w.record call :: v.record next :: history :=
        List.cons_subset_cons _ (List.subset_cons_self _ _)
      obtain ⟨hv, hvlinks, hthere, halone⟩ := ih
        (fun r hr => hunchanged r (List.mem_cons_of_mem _ hr)) (hpaths.mono hsub)
        (hvariants.mono hsub)
      have hfile := (follow_eq_ok_iff.mp (follow_of_entry hplain hthere)).2.get?
      have hnext : (v.record next).LeavesAlone
          (((w.record call).nameOf canonical contents).entryName :: dir) :=
        ⟨not_mayWrite_of_file hv hfile, not_mayRemove_of_contents hpaths hvariants (by simp)
          List.mem_cons_self hv hcanonical (hunchanged _ List.mem_cons_self)⟩
      have hvframed := Record.framed hv next
      refine ⟨hvframed.sound, hvframed.noReservedLinks hvlinks,
        entry_call hv hvlinks hplain hthere hnext, fun r hr => ?_⟩
      rcases List.mem_cons.mp hr with rfl | hr
      · exact hnext
      · exact halone r hr
  | edit _ hedit ih =>
      obtain ⟨-, -, hthere, halone⟩ := ih hunchanged hpaths hvariants
      exact ⟨hedit.sound, hedit.links, hedit.entry.trans hthere, halone⟩

/-! ### Later calls for a source that is dated in the future -/

/-- Every artifact is older than this source. -/
def aheadWorld : World := .ofSource ⟨20, 0⟩

/-- The same call, the source spelled differently. -/
def respelledCall : Call := { sampleCall with source := .ofString "./a" }

/-- A call with another transform, into the same directory. -/
def upperCall : Call := { sampleCall with compiler := sampleCall.compiler.withTransform .upper }

def aheadHistory : List Record :=
  let w := aheadWorld.afterCall sampleCall
  [(w.afterCall respelledCall).record upperCall, w.record respelledCall]

theorem aheadHistory_reads : ∀ r ∈ aheadWorld.record sampleCall :: aheadHistory,
    r.before.system.contents (.ofString "/a") = .ok [1, 2, 3] ∧
    r.before.system.canonical r.call.source = .ok (.ofString "/a") ∧
    r.variant ∈ [(Utf8.ofString "identity/1", []), (Utf8.ofString "upper/1", [])] := by
  intro r hr
  simp only [aheadHistory, List.mem_cons, List.not_mem_nil, or_false] at hr
  rcases hr with rfl | rfl | rfl <;>
    exact ⟨by decide +kernel, by decide +kernel, by decide +kernel⟩

theorem artifact_survives_ahead :
    (aheadWorld.record sampleCall).result = .ok samplePath ∧
    ∃ l data t mode,
      (aheadWorld.afterCall sampleCall).system.entry samplePath =
        .ok (.node l (.file data t mode)) ∧
      (((aheadWorld.afterCall sampleCall).afterCall respelledCall).afterCall upperCall).system.entry
        samplePath = .ok (.node l (.file data t mode)) := by
  have hresult : (aheadWorld.record sampleCall).result = .ok samplePath := by decide +kernel
  have hlinks : aheadWorld.system.NoReservedLinks := by
    intro name dir target t _ hlink
    have hmem := (aheadWorld.system.disk.get?_eq_some_iff _ _).mp hlink
    simp [aheadWorld, World.ofSource] at hmem
  have hrun : Run (Spares samplePath) (aheadWorld.afterCall sampleCall) aheadHistory
      (((aheadWorld.afterCall sampleCall).afterCall respelledCall).afterCall upperCall) :=
    .call _ (.call _ .start)
  have hvariants :
      ∀ v ∈ [(Utf8.ofString "identity/1", ([] : Bytes)), (Utf8.ofString "upper/1", [])],
      ∀ v' ∈ [(Utf8.ofString "identity/1", ([] : Bytes)), (Utf8.ofString "upper/1", [])],
      (ArtifactName.variantHash v.1 v.2).short ArtifactName.variantKeyLength =
        (ArtifactName.variantHash v'.1 v'.2).short ArtifactName.variantKeyLength → v = v' := by
    decide +kernel
  obtain ⟨hcontents, hcanonical, -⟩ := aheadHistory_reads _ List.mem_cons_self
  have hread : aheadWorld.system.contents sampleCall.source = .ok [1, 2, 3] := by decide +kernel
  obtain ⟨l, data, t, mode, hentry, hlater, -⟩ := artifact_survives (World.sound_ofSource _) hlinks
    hresult hread hcanonical hrun
    (fun r hr => (aheadHistory_reads r (List.mem_cons_of_mem _ hr)).1)
    (fun r hr r' hr' p p' hp hp' _ => by
      cases hp.symm.trans (aheadHistory_reads r hr).2.1
      cases hp'.symm.trans (aheadHistory_reads r' hr').2.1
      rfl)
    (fun r hr r' hr' hkey => hvariants _ (aheadHistory_reads r hr).2.2 _
      (aheadHistory_reads r' hr').2.2 hkey)
  exact ⟨hresult, l, data, t, mode, hentry, hlater⟩

end TemplateCache
